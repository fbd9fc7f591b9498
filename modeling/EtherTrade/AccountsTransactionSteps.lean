import EtherTrade.AccountsTransactionInvariants

/-!
# Steps of concurrent transactions

Each step of a call or a delivery either takes or gives up locks, opens an account, or
commits one complete change of the database. It restores the invariant of its process
and disturbs no other.
-/

namespace EtherTrade.AccountsTransactionSteps

open KeyedRows AccountsSchema PostedJournals AccountsDbInvariants
open BalanceMutations BalanceMutationCorrectness TradeSettlement TradeSettlementCorrectness
open AccountsDbHistory InterleavedProcesses ResourceLocks AccountsTransactions
open AccountsTransactionInvariants

variable {db : AccountsDb} {p q : ℕ} {s s' : Shared} {l : Process} {action : Action}

@[simp] theorem takeLock_store (r : Resource) : (takeLock p s r).store = s.store := rfl

@[simp] theorem takeLock_self (r : Resource) : (takeLock p s r).locks r = some p :=
  LockTable.acquire_self

theorem takeLock_own {r : Resource} (r' : Resource) (h : s.locks r = some p) :
    (takeLock p s r').locks r = some p := LockTable.acquire_own h

theorem takeLock_available {r r' : Resource} (h : s.locks.Available p r) :
    (takeLock p s r').locks.Available p r := by
  rcases h with h | h
  · by_cases he : r = r'
    · subst he
      exact Or.inr (takeLock_self r)
    · exact Or.inl ((LockTable.acquire_of_ne he).trans h)
  · exact Or.inr (takeLock_own r' h)

/-- Steps that commit nothing: they take available locks or give all locks back. -/
inductive Quiet (p : ℕ) (s : Shared) : Shared → Prop
  | same : Quiet p s s
  | locked {s' : Shared} {r : Resource} (h : Quiet p s s') (ha : s'.locks.Available p r) :
      Quiet p s (takeLock p s' r)
  | rolledBack : Quiet p s (rollback p s)

namespace Quiet

theorem store_eq (h : Quiet p s s') : s'.store = s.store := by
  induction h with
  | same => rfl
  | locked _ _ ih => exact ih
  | rolledBack => rfl

theorem undisturbed (h : Quiet p s s') (hpq : p ≠ q) : Undisturbed q s s' := by
  refine ⟨?_, by rw [h.store_eq]; exact .refl _⟩
  induction h with
  | same => exact .refl q s
  | locked _ ha ih => exact ih.trans (keeps_acquire hpq ha)
  | rolledBack => exact keeps_release hpq

end Quiet

/-- A commit disturbs nobody when what it changes is not locked by another process. -/
theorem undisturbed_commit {store : AccountsDb} (hpq : p ≠ q) (hstay : Extends s.store store)
    (h : ∀ r, view store r ≠ view s.store r → s.locks.Available p r) :
    Undisturbed q s (commit p s store) :=
  ⟨(keeps_of_available hpq h).trans (keeps_release (s := ⟨store, s.locks⟩) hpq), hstay⟩

/-! ### Balance calls -/

section Calls

variable {m : BalanceMutation} {op : BalanceOperation} {params : BalanceParams}
  {progress progress' : CallProgress} {account : Account} {opened : Bool}

/-- The database with the account of the call in it. -/
def preparedDb (db : AccountsDb) (account : Account) (opened : Bool) : AccountsDb :=
  if opened then db.insertAccount account else db

theorem prepared_of_secured (hdb : WellFormed s.store) (h : Secured p s m params account opened)
    (hpassed : Passed m params account opened) :
    Prepared m params s.store account (preparedDb s.store account opened) := by
  cases h with
  | found hlock hrow howner =>
    obtain ⟨hu, hc⟩ := Prod.mk.inj howner
    have hfound := hdb.findByUserAndCurrency_of_id hrow
    rw [hu, hc] at hfound
    exact .found hfound (hpassed rfl)
  | opened _ _ hid hmissing hopens => exact .opened hopens hmissing hid

/-- What a commit of a call changes, the call has locked. -/
theorem available_of_secured (hdb : WellFormed s.store)
    (h : Secured p s m params account opened) (hpassed : Passed m params account opened)
    (hkey : s.locks (.idempotencyKey params.idempotencyKey) = some p) {r : Resource}
    (hr : view (m.commit params account (preparedDb s.store account opened)) r ≠
      view s.store r) : s.locks.Available p r := by
  have hprepared := prepared_of_secured hdb h hpassed
  have haccount : s.locks (.account account.id) = some p := by cases h <;> assumption
  rw [commit_eq (hprepared.wellFormed hdb) (hprepared.findById hdb)] at hr
  by_cases hledger : view (((preparedDb s.store account opened).adjust
      (totalChange [leg m params account])).insertLedgerTransactions
        [m.ledgerTransaction params (m.updatedAccount params account)]) r =
      view ((preparedDb s.store account opened).adjust (totalChange [leg m params account])) r
  · rw [hledger] at hr
    by_cases hadjust : view ((preparedDb s.store account opened).adjust
        (totalChange [leg m params account])) r = view (preparedDb s.store account opened) r
    · rw [hadjust] at hr
      cases h with
      | found => exact absurd rfl hr
      | opened hlock hindex =>
        rcases view_insertAccount hr with rfl | rfl
        · exact Or.inr hlock
        · exact Or.inr hindex
    · obtain ⟨id, rfl, hchange⟩ := view_adjust hadjust
      have hid : id = account.id := by
        by_contra hne
        exact hchange (totalChange_of_notMem (by simpa [leg] using hne))
      rw [hid]
      exact Or.inr haccount
  · obtain ⟨t, ht, key, htk, rfl⟩ := view_insertLedgerTransactions hledger
    obtain rfl := List.mem_singleton.mp ht
    obtain rfl := Option.some.inj htk
    exact Or.inr hkey

theorem secured_takeLock (r : Resource) (h : Secured p s m params account opened) :
    Secured p (takeLock p s r) m params account opened := by
  cases h with
  | found hlock hrow howner => exact .found (takeLock_own r hlock) hrow howner
  | opened hlock hindex hid hmissing hopens =>
    exact .opened (takeLock_own r hlock) (takeLock_own r hindex) hid hmissing hopens

/-- What one step of a call does, one case for each way it goes on. -/
inductive CallEffect (p : ℕ) (s : Shared) (m : BalanceMutation) (params : BalanceParams) :
    CallProgress → Action → Shared → CallProgress → Prop
  | aborted {progress : CallProgress} :
    CallEffect p s m params progress .abort (rollback p s) .failed
  | unused (hcheck : checkReplay m.expectedType params s.store = .unused) :
    CallEffect p s m params .begun .statement s .checked
  | mismatched :
    CallEffect p s m params .begun .statement s (.returning .idempotencyPayloadMismatch)
  | replaying {accountId : Uuid}
      (hcheck : checkReplay m.expectedType params s.store = .replay accountId) :
    CallEffect p s m params .begun .statement s (.replaying accountId)
  | replayed {accountId : Uuid} :
    CallEffect p s m params (.replaying accountId) .statement s
      (.returning (readReplayedAccount accountId s.store))
  | absent : CallEffect p s m params .checked .statement s
      (if m.opensAccount then .missing else .returning .notFound)
  | found {account : Account}
      (hfound : s.store.findByUserAndCurrency params.userId params.currency = some account)
      (havailable : s.locks.Available p (.account account.id)) :
    CallEffect p s m params .checked .statement (takeLock p s (.account account.id))
      (.held account false)
  | conflicted {newId : Uuid}
      (hconflict : accountConflict s.store (.zero newId params.userId params.currency) = true) :
    CallEffect p s m params .missing (.insertAccount newId) (rollback p s) .failed
  | opened {newId : Uuid}
      (hcan : CanInsertAccount p s (.zero newId params.userId params.currency))
      (hnew : accountConflict s.store (.zero newId params.userId params.currency) = false) :
    CallEffect p s m params .missing (.insertAccount newId)
      (takeLock p (takeLock p s (.owner params.userId params.currency)) (.account newId))
      (.held (.zero newId params.userId params.currency) true)
  | refused {account : Account} {opened : Bool} {result : BalanceMutationResult}
      (hrefused : m.refusal account params.amount = some result) :
    CallEffect p s m params (.held account opened) .statement s (.returning result)
  | updated {account : Account} {opened : Bool}
      (hpassed : opened = false → m.refusal account params.amount = none) :
    CallEffect p s m params (.held account opened) .statement s (.updated account opened)
  | keyUsed {account : Account} {opened : Bool}
      (hused : (s.store.findLedgerByIdempotencyKey params.idempotencyKey).isSome = true) :
    CallEffect p s m params (.updated account opened) .statement (rollback p s) .failed
  | written {account : Account} {opened : Bool}
      (havailable : s.locks.Available p (.idempotencyKey params.idempotencyKey))
      (hunused : s.store.findLedgerByIdempotencyKey params.idempotencyKey = none) :
    CallEffect p s m params (.updated account opened) .statement
      (takeLock p s (.idempotencyKey params.idempotencyKey)) (.written account opened)
  | committed {account : Account} {opened : Bool} :
    CallEffect p s m params (.written account opened) .statement
      (commit p s (m.commit params account (preparedDb s.store account opened)))
      (.returned (.ok (m.updatedAccount params account)))
  | returned {result : BalanceMutationResult} :
    CallEffect p s m params (.returning result) .statement (rollback p s) (.returned result)

theorem callStep_effect (h : callStep p s m params progress action = some (s', progress')) :
    CallEffect p s m params progress action s' progress' := by
  cases action with
  | abort => cases progress <;> cases h <;> exact .aborted
  | call => cases progress <;> cases h
  | deliver => cases progress <;> cases h
  | findOrCreate => cases progress <;> cases h
  | insertAccount newId =>
    cases progress with
    | missing =>
      simp only [callStep] at h
      split at h
      · next hcan =>
        split at h <;> cases h
        · next hconflict => exact .conflicted hconflict
        · next hconflict => exact .opened hcan (Bool.eq_false_of_not_eq_true hconflict)
      · cases h
    | _ => cases h
  | statement =>
    cases progress with
    | begun =>
      simp only [callStep] at h
      split at h <;> cases h
      · next hcheck => exact .unused hcheck
      · exact .mismatched
      · next hcheck => exact .replaying hcheck
    | replaying accountId =>
      cases h
      exact .replayed
    | checked =>
      simp only [callStep] at h
      split at h
      · cases h
        exact .absent
      · next hfound =>
        split at h <;> cases h
        next havailable => exact .found hfound havailable
    | held account opened =>
      simp only [callStep] at h
      split at h <;> cases h
      · next hrefused =>
        split at hrefused
        · cases hrefused
        · exact .refused hrefused
      · next hguard =>
        refine .updated ?_
        rintro rfl
        simpa using hguard
    | updated account opened =>
      simp only [callStep] at h
      split at h
      · next havailable =>
        split at h <;> cases h
        · next hused => exact .keyUsed hused
        · next hunused => exact .written havailable (by simpa using hunused)
      · cases h
    | written account opened =>
      cases h
      exact .committed
    | returning result =>
      cases h
      exact .returned
    | _ => cases h

/-- A step of a call is quiet, or it is the commit of the mutation. -/
theorem callStep_cases (hdb : WellFormed s.store)
    (hi : CallInvariant p s op.mutation params progress)
    (h : callStep p s op.mutation params progress action = some (s', progress')) :
    (Quiet p s s' ∧ CallInvariant p s' op.mutation params progress' ∧
      ∀ a, progress' ≠ .returned (.ok a)) ∨
    ∃ account opened, progress = .written account opened ∧
      s' = commit p s (op.mutation.commit params account (preparedDb s.store account opened)) ∧
      progress' = .returned (.ok (op.mutation.updatedAccount params account)) := by
  have heffect := callStep_effect h
  cases heffect with
  | aborted => exact Or.inl ⟨.rolledBack, trivial, nofun⟩
  | unused hcheck => exact Or.inl ⟨.same, trivial, nofun⟩
  | mismatched => exact Or.inl ⟨.same, nofun, nofun⟩
  | replaying hcheck => exact Or.inl ⟨.same, trivial, nofun⟩
  | replayed => exact Or.inl ⟨.same, fun a => readReplayedAccount_ne_ok, nofun⟩
  | absent =>
    refine Or.inl ⟨.same, ?_, ?_⟩
    · split
      · assumption
      · exact nofun
    · split <;> exact nofun
  | found hfound havailable =>
    exact Or.inl ⟨.locked .same havailable, .found (takeLock_self _)
      (hdb.findById_of_owner hfound) (findByUserAndCurrency_owner hfound), nofun⟩
  | conflicted hconflict => exact Or.inl ⟨.rolledBack, trivial, nofun⟩
  | opened hcan hnew =>
    simp only [accountConflict, Bool.or_eq_false_iff, Option.isSome_eq_false_iff,
      Option.isNone_iff_eq_none] at hnew
    exact Or.inl ⟨.locked (.locked .same hcan.1) (takeLock_available hcan.2),
      .opened (takeLock_self _) (takeLock_own _ (takeLock_self _)) hnew.2 hnew.1 hi, nofun⟩
  | refused hrefused =>
    exact Or.inl ⟨.same, fun a ha => refusal_ne_ok (ha ▸ hrefused), nofun⟩
  | updated hpassed => exact Or.inl ⟨.same, ⟨hi, hpassed⟩, nofun⟩
  | keyUsed hused => exact Or.inl ⟨.rolledBack, trivial, nofun⟩
  | written havailable hunused =>
    exact Or.inl ⟨.locked .same havailable,
      ⟨secured_takeLock _ hi.1, hi.2, takeLock_self _, hunused⟩, nofun⟩
  | committed => exact Or.inr ⟨_, _, rfl, rfl, rfl⟩
  | returned =>
    refine Or.inl ⟨.rolledBack, trivial, fun a ha => ?_⟩
    exact hi a (CallProgress.returned.inj ha)

end Calls

/-! ### Settlement deliveries -/

section Settlements

variable {envelope : DomainEventEnvelope} {trade : TradeExecutedEvent}
  {progress progress' : SettlementProgress} {lookups : Participant → Lookup}
  {ids : Participant → Uuid}

/-- An account of the trade that did not exist is opened with zero balances. -/
structure OpensAccount (p : ℕ) (s s' : Shared) (trade : TradeExecutedEvent) (q : Participant)
    (account : Account) : Prop where
  zero : account.balances = 0
  owner : account.owner = trade.owner q
  canInsert : CanInsertAccount p s account
  missing : s.store.findByUserAndCurrency account.userId account.currency = none
  newId : s.store.findById account.id = none
  result : s' = ⟨s.store.insertAccount account, s.locks⟩

theorem lookupStep_cases {q : Participant} {newId : Uuid} {progress progress' : Lookup}
    (h : lookupStep p s (trade.owner q) newId progress = some (s', progress')) :
    (s' = s ∧ ∀ id, progress' = .found id → ∃ a,
      s.store.findByUserAndCurrency (trade.owner q).1 (trade.owner q).2 = some a ∧ a.id = id) ∨
    ∃ account, OpensAccount p s s' trade q account ∧ progress' = .found account.id := by
  cases progress with
  | searching =>
    simp only [lookupStep] at h
    split at h <;> obtain ⟨rfl, rfl⟩ := Prod.mk.inj (Option.some.inj h)
    · next account hfound =>
      refine Or.inl ⟨rfl, fun id hid => ?_⟩
      obtain rfl := Lookup.found.inj hid
      exact ⟨account, hfound, rfl⟩
    · exact Or.inl ⟨rfl, by simp⟩
  | missing =>
    simp only [lookupStep] at h
    split at h
    · next hcan =>
      split at h
      · obtain ⟨rfl, rfl⟩ := Prod.mk.inj (Option.some.inj h)
        exact Or.inl ⟨rfl, by simp⟩
      · next hconflict =>
        obtain ⟨rfl, rfl⟩ := Prod.mk.inj (Option.some.inj h)
        simp only [accountConflict, Bool.or_eq_true, not_or, Bool.not_eq_true,
          Option.isSome_eq_false_iff, Option.isNone_iff_eq_none] at hconflict
        exact Or.inr ⟨_, ⟨rfl, rfl, hcan, hconflict.1, hconflict.2, rfl⟩, rfl⟩
    · cases h
  | refused =>
    simp only [lookupStep] at h
    split at h <;> obtain ⟨rfl, rfl⟩ := Prod.mk.inj (Option.some.inj h)
    · next account hfound =>
      refine Or.inl ⟨rfl, fun id hid => ?_⟩
      obtain rfl := Lookup.found.inj hid
      exact ⟨account, hfound, rfl⟩
    · exact Or.inl ⟨rfl, by simp⟩
  | found => cases h
  | failed => cases h

theorem foundAccountIds_eq_some (h : foundAccountIds lookups = some ids) (q : Participant) :
    lookups q = .found (ids q) := by
  have hfound : ∀ {l : Lookup} {id : Uuid}, l.accountId = some id → l = .found id := by
    intro l id hl
    cases l <;> simp_all [Lookup.accountId]
  simp only [foundAccountIds, Option.bind_eq_bind, Option.bind_eq_some_iff, Option.pure_def,
    Option.some.injEq] at h
  obtain ⟨bq, hbq, bb, hbb, sq, hsq, sb, hsb, rfl⟩ := h
  cases q
  · exact hfound hbq
  · exact hfound hbb
  · exact hfound hsq
  · exact hfound hsb

/-- What one step of a delivery does, one case for each way it goes on. -/
inductive SettlementEffect (p : ℕ) (s : Shared) (envelope : DomainEventEnvelope)
    (trade : TradeExecutedEvent) :
    SettlementProgress → Action → Shared → SettlementProgress → Prop
  | aborted {progress : SettlementProgress} :
    SettlementEffect p s envelope trade progress .abort (rollback p s) (.done .databaseError)
  | lookedUp {lookups : Participant → Lookup} {q : Participant} {newId : Uuid} {s' : Shared}
      {lookup : Lookup}
      (hlookup : lookupStep p s (trade.owner q) newId (lookups q) = some (s', lookup)) :
    SettlementEffect p s envelope trade (.finding lookups) (.findOrCreate q newId) s'
      (.finding (Function.update lookups q lookup))
  | notCreated {lookups : Participant → Lookup} {q : Participant} :
    SettlementEffect p s envelope trade (.finding lookups) .statement s
      (.done (.thrown (accountCreateFailed (trade.owner q).1 (trade.owner q).2)))
  | began {lookups : Participant → Lookup} {ids : Participant → Uuid}
      (hids : foundAccountIds lookups = some ids) :
    SettlementEffect p s envelope trade (.finding lookups) .statement s (.began ids)
  | processed {ids : Participant → Uuid} :
    SettlementEffect p s envelope trade (.began ids) .statement s .skipping
  | unprocessed {ids : Participant → Uuid} :
    SettlementEffect p s envelope trade (.began ids) .statement s
      (.locking ids (lockOrder ids) [])
  | missing {ids : Participant → Uuid} {id : Uuid} {rest : List Uuid} {rows : List Account}
      (hmissing : s.store.findById id = none) :
    SettlementEffect p s envelope trade (.locking ids (id :: rest) rows) .statement s
      (.locking ids rest rows)
  | locked {ids : Participant → Uuid} {id : Uuid} {rest : List Uuid} {rows : List Account}
      {account : Account} (hfound : s.store.findById id = some account)
      (havailable : s.locks.Available p (.account id)) :
    SettlementEffect p s envelope trade (.locking ids (id :: rest) rows) .statement
      (takeLock p s (.account id)) (.locking ids rest (rows ++ [account]))
  | failed {ids : Participant → Uuid} {rows : List Account} {outcome : HandleOutcome}
      (hfailed : outcome ≠ .settled) :
    SettlementEffect p s envelope trade (.locking ids [] rows) .statement (rollback p s)
      (.done outcome)
  | written {ids : Participant → Uuid} {rows : List Account} {writes : SettlementWrites}
      (hwrites : settlementWrites trade ids rows = some writes) :
    SettlementEffect p s envelope trade (.locking ids [] rows) .statement s (.written ids writes)
  | eventUsed {ids : Participant → Uuid} {writes : SettlementWrites} :
    SettlementEffect p s envelope trade (.written ids writes) .statement (rollback p s)
      (.done .databaseError)
  | marked {ids : Participant → Uuid} {writes : SettlementWrites}
      (havailable : s.locks.Available p (.event envelope.eventId))
      (hunused : s.store.isEventProcessed envelope.eventId = false) :
    SettlementEffect p s envelope trade (.written ids writes) .statement
      (takeLock p s (.event envelope.eventId)) (.marked ids writes)
  | committed {ids : Participant → Uuid} {writes : SettlementWrites} :
    SettlementEffect p s envelope trade (.marked ids writes) .statement
      (commit p s (commitSettlement envelope writes s.store)) (.done .settled)
  | skipped : SettlementEffect p s envelope trade .skipping .statement (rollback p s)
      (.done .alreadyProcessed)

theorem settlementStep_effect
    (h : settlementStep p s envelope trade progress action = some (s', progress')) :
    SettlementEffect p s envelope trade progress action s' progress' := by
  cases action with
  | abort =>
    cases progress with
    | locking ids rest rows => cases rest <;> cases h <;> exact .aborted
    | done => cases h
    | _ =>
      cases h
      exact .aborted
  | findOrCreate q newId =>
    cases progress with
    | finding lookups =>
      obtain ⟨⟨s₁, lookup⟩, hlookup, hr⟩ := Option.map_eq_some_iff.mp h
      cases hr
      exact .lookedUp hlookup
    | locking ids rest rows => cases rest <;> cases h
    | _ => cases h
  | statement =>
    cases progress with
    | finding lookups =>
      simp only [settlementStep] at h
      split at h
      · cases h
        exact .notCreated
      · obtain ⟨ids, hids, hr⟩ := Option.map_eq_some_iff.mp h
        cases hr
        exact .began hids
    | began ids =>
      simp only [settlementStep] at h
      split at h <;> cases h
      · exact .processed
      · exact .unprocessed
    | locking ids rest rows =>
      cases rest with
      | cons id rest =>
        simp only [settlementStep] at h
        split at h
        · next hmissing =>
          cases h
          exact .missing hmissing
        · next hfound =>
          split at h <;> cases h
          next havailable => exact .locked hfound havailable
      | nil =>
        simp only [settlementStep] at h
        split at h
        · split at h <;> cases h
          · exact .failed (by rintro ⟨⟩)
          · next hwrites => exact .written hwrites
        · cases h
          exact .failed (by rintro ⟨⟩)
    | written ids writes =>
      simp only [settlementStep] at h
      split at h
      · next havailable =>
        split at h <;> cases h
        · exact .eventUsed
        · next hunused => exact .marked havailable (Bool.eq_false_of_not_eq_true hunused)
      · cases h
    | marked ids writes =>
      cases h
      exact .committed
    | skipping =>
      cases h
      exact .skipped
    | done => cases h
  | _ => cases progress <;> first | cases h | (rename_i rest _; cases rest <;> cases h)

/-- When all ids have been locked, so have the accounts of all participants. -/
theorem lockedSoFar_nil {rows : List Account} (h : LockedSoFar p s ids [] rows) :
    rows = selectLocked ids s.store ∧ ∀ q, s.locks (.account (ids q)) = some p := by
  obtain ⟨before, horder, rfl, hlock⟩ := h
  rw [List.append_nil] at horder
  subst horder
  exact ⟨rfl, fun q => hlock _ (mem_lockOrder.mpr ⟨q, rfl⟩)⟩

/-- A step of a delivery is quiet, or it opens an account of the trade, or it is the commit
of the settlement. -/
theorem settlementStep_cases (hdb : WellFormed s.store)
    (hi : SettlementInvariant p s envelope trade progress)
    (h : settlementStep p s envelope trade progress action = some (s', progress')) :
    (Quiet p s s' ∧ SettlementInvariant p s' envelope trade progress' ∧
      progress' ≠ .done .settled) ∨
    (∃ lookups lookups' q account, progress = .finding lookups ∧ progress' = .finding lookups' ∧
      OpensAccount p s s' trade q account ∧ lookups' = Function.update lookups q (.found account.id)) ∨
    ∃ ids writes, progress = .marked ids writes ∧
      s' = commit p s (commitSettlement envelope writes s.store) ∧
      progress' = .done .settled := by
  have heffect := settlementStep_effect h
  cases heffect with
  | aborted => exact Or.inl ⟨.rolledBack, trivial, (by rintro ⟨⟩)⟩
  | @lookedUp lookups q newId s' lookup hlookup =>
    rcases lookupStep_cases hlookup with ⟨rfl, hfound⟩ | ⟨account, hopens, rfl⟩
    · refine Or.inl ⟨.same, fun q' id hid => ?_, (by rintro ⟨⟩)⟩
      by_cases hq : q' = q
      · subst hq
        rw [Function.update_self] at hid
        obtain ⟨a, ha, rfl⟩ := hfound id hid
        exact ⟨a, hdb.findById_of_owner ha, findByUserAndCurrency_owner ha⟩
      · rw [Function.update_of_ne hq] at hid
        exact hi q' id hid
    · exact Or.inr (Or.inl ⟨lookups, _, q, account, rfl, rfl, hopens, rfl⟩)
  | notCreated => exact Or.inl ⟨.same, trivial, (by rintro ⟨⟩)⟩
  | began hids =>
    exact Or.inl ⟨.same, fun q => hi q _ (foundAccountIds_eq_some hids q), (by rintro ⟨⟩)⟩
  | processed => exact Or.inl ⟨.same, trivial, (by rintro ⟨⟩)⟩
  | unprocessed => exact Or.inl ⟨.same, ⟨hi, [], rfl, rfl, by simp⟩, (by rintro ⟨⟩)⟩
  | @missing ids id rest rows hmissing =>
    -- every id in the order is that of an account that has been found
    obtain ⟨ho, before, horder, -⟩ := hi
    obtain ⟨q, rfl⟩ := mem_lockOrder.mp (horder ▸ List.mem_append_right before List.mem_cons_self)
    obtain ⟨a, ha, -⟩ := ho q
    cases hmissing.symm.trans ha
  | @locked ids id rest rows account hfound havailable =>
    obtain ⟨ho, before, horder, hrows, hlock⟩ := hi
    have horder' : (before ++ [id]) ++ rest = lockOrder ids := by simpa using horder
    refine Or.inl ⟨.locked .same havailable, ⟨ho, _, horder', ?_, ?_⟩, (by rintro ⟨⟩)⟩
    · simp [List.filterMap_append, hrows, hfound]
    · intro i hi
      rcases List.mem_append.mp hi with hi | hi
      · exact takeLock_own _ (hlock i hi)
      · obtain rfl := List.mem_singleton.mp hi
        exact takeLock_self _
  | @failed ids rows outcome hfailed =>
    refine Or.inl ⟨.rolledBack, ?_, fun h => hfailed (SettlementProgress.done.inj h)⟩
    cases outcome with
    | settled => exact absurd rfl hfailed
    | _ => trivial
  | written hwrites =>
    obtain ⟨ho, hlocked⟩ := hi
    obtain ⟨hrows, hlock⟩ := lockedSoFar_nil hlocked
    exact Or.inl ⟨.same, ⟨ho, hlock, hrows ▸ hwrites⟩, (by rintro ⟨⟩)⟩
  | eventUsed => exact Or.inl ⟨.rolledBack, trivial, (by rintro ⟨⟩)⟩
  | marked havailable hunused =>
    obtain ⟨ho, hlock, hwrites⟩ := hi
    exact Or.inl ⟨.locked .same havailable, ⟨ho, fun q => takeLock_own _ (hlock q), hwrites,
      takeLock_self _, by simpa [AccountsDb.isEventProcessed] using hunused⟩, (by rintro ⟨⟩)⟩
  | @committed ids writes => exact Or.inr (Or.inr ⟨ids, writes, rfl, rfl, rfl⟩)
  | skipped => exact Or.inl ⟨.rolledBack, trivial, (by rintro ⟨⟩)⟩

/-- What the commit of a settlement changes, the settlement has locked. -/
theorem available_of_marked {writes : SettlementWrites} (hdb : WellFormed s.store)
    (hs : Settlement envelope trade ids writes s.store)
    (hlock : ∀ q, s.locks (.account (ids q)) = some p)
    (hevent : s.locks (.event envelope.eventId) = some p) {r : Resource}
    (hr : view (commitSettlement envelope writes s.store) r ≠ view s.store r) :
    s.locks.Available p r := by
  obtain ⟨f, -, -, heq⟩ := hs.commit_eq hdb
  rw [heq, settledDb] at hr
  by_cases hmark : r = .event envelope.eventId
  · subst hmark
    exact Or.inr hevent
  · have hview : ∀ {d : AccountsDb}, view (d.markEventProcessed (processedEvent envelope)) r =
        view d r := by
      intro d
      by_contra hne
      exact hmark (view_markEventProcessed hne)
    have hledger : ∀ {d : AccountsDb} {after : Uuid → Balances},
        view (d.insertLedgerTransactions (legOrder.map (entry trade f ids after))) r = view d r := by
      intro d after
      by_contra hne
      obtain ⟨t, ht, key, hkey, -⟩ := view_insertLedgerTransactions hne
      obtain ⟨q, -, rfl⟩ := List.mem_map.mp ht
      cases hkey
    rw [hview, hledger] at hr
    obtain ⟨id, rfl, hchange⟩ := view_adjust hr
    by_cases hid : id ∈ (legs f ids).map Prod.fst
    · rw [legs_fst] at hid
      obtain ⟨q, -, rfl⟩ := List.mem_map.mp hid
      exact Or.inr (hlock q)
    · exact absurd (totalChange_of_notMem hid) hchange

end Settlements

end EtherTrade.AccountsTransactionSteps
