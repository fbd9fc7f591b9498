import EtherTrade.WithdrawalTransactionSteps

/-!
# Invariants of the withdrawals system

A withdrawal is dispatched once its row has left the pending state and no process is
about to pay it out. It stays dispatched, so each withdrawal is paid out at most once, and
everything that follows a payout belongs to a dispatched withdrawal: recorded
transactions, submitted transactions and the unlocks of failed withdrawals. A
compensating unlock comes only after the lock key has been used.
-/

namespace EtherTrade.WithdrawalTransactionInvariants

open KeyedRows AccountsSchema AccountsDbInvariants IdempotencyKeyIsolation WithdrawalsSchema
open WithdrawalTransactions WithdrawalTransactionSteps InterleavedProcesses

variable {c d : WithdrawalsConfig} {e : Event Action} {s s' : TransfersStore} {l l' : Process}
  {action : Action} {id : Uuid} {row : WithdrawalRequest} {terms : WithdrawalTerms}

theorem processStep_of_next (h : withdrawalsSystem.next c e = some d) :
    ProcessStep c.shared (c.procs e.proc) e.action d.shared (d.procs e.proc) := by
  obtain ⟨s, l, hs, rfl⟩ := System.next_eq_some.mp h
  simpa using step_cases (p := e.proc) hs

/-- The row is in the table, with the same id and what was requested. -/
def Stored (s : TransfersStore) (row : WithdrawalRequest) : Prop :=
  ∃ stored ∈ s.db.withdrawals, stored.id = row.id ∧
    stored.toWithdrawalTerms = row.toWithdrawalTerms

/-- The withdrawal has left the pending state. -/
def Taken (s : TransfersStore) (id : Uuid) : Prop :=
  ∃ stored ∈ s.db.withdrawals, stored.id = id ∧ stored.status ≠ .pending

/-- The withdrawal is taken, and its payout has been attempted or will never be. -/
structure Dispatched (c : WithdrawalsConfig) (id : Uuid) : Prop where
  taken : Taken c.shared id
  released : ∀ p row, (c.procs p).picked = some row → row.id ≠ id

theorem Stored.step {worked : List WithdrawalRequest} (h : Stored s row)
    (hrows : Evolves s s' worked) : Stored s' row := by
  obtain ⟨stored, hmem, hid, hterms⟩ := h
  obtain ⟨row', hmem', hid', hterms', -⟩ := hrows.persists stored hmem
  exact ⟨row', hmem', hid'.trans hid, hterms'.trans hterms⟩

theorem Taken.step {worked : List WithdrawalRequest} (h : Taken s id)
    (hrows : Evolves s s' worked) : Taken s' id := by
  obtain ⟨stored, hmem, hid, hstatus⟩ := h
  obtain ⟨row', hmem', hid', -, hstatus'⟩ := hrows.persists stored hmem
  exact ⟨row', hmem', hid'.trans hid, hstatus' hstatus⟩

/-- A taken withdrawal is not picked again. -/
theorem Taken.ne_picked (hunique : UniqueRows s.db) (h : Taken s id)
    (hstep : ProcessStep s l action s' l') (hrow : l'.picked = some row) : row.id ≠ id := by
  obtain ⟨pending, hfind, hpending, rfl, -⟩ := picked_step hstep hrow
  obtain ⟨stored, hmem, rfl, hstatus⟩ := h
  intro hid
  have hsame : stored = pending :=
    hunique.ids.eq hmem (lookup_mem hfind).1 hid.symm
  exact hstatus (hsame ▸ hpending)

/-- The invariant of rows, payouts and refunds. -/
structure PayoutInvariant (c : WithdrawalsConfig) : Prop where
  accounts : WellFormed c.shared.accounts
  rows : UniqueRows c.shared.db
  picked : ∀ p row, (c.procs p).picked = some row → Stored c.shared row ∧ Taken c.shared row.id
  pickedOnce : ∀ p q row other, (c.procs p).picked = some row →
    (c.procs q).picked = some other → row.id = other.id → p = q
  dispatched : ∀ p, ∀ row ∈ (c.procs p).dispatched, Stored c.shared row ∧ Dispatched c row.id
  recorded : ∀ row ∈ c.shared.db.withdrawals, row.txHash.isSome → Dispatched c row.id
  submitted : ∀ tx ∈ c.shared.chain, Dispatched c tx.withdrawalId
  refunding : ∀ row, .refund row ∈ c.shared.inFlight → Stored c.shared row ∧ Dispatched c row.id
  refunded : ∀ scope, Refunded c.shared scope →
    ∃ row ∈ c.shared.db.withdrawals, row.scope = scope ∧ Dispatched c row.id

theorem payoutInvariant_initial : PayoutInvariant initial where
  accounts := wellFormed_empty
  rows := ⟨keyUnique_nil, keyUnique_nil⟩
  picked _ _ h := by cases h
  pickedOnce _ _ _ _ h := by cases h
  dispatched _ _ h := by cases h
  recorded _ h := by cases h
  submitted _ h := by cases h
  refunding _ h := by cases h
  refunded _ h := by
    obtain ⟨t, ht, -⟩ := h
    cases ht

section Next

variable (hinv : PayoutInvariant c) (hnext : withdrawalsSystem.next c e = some d)

include hinv hnext

theorem evolves_next : UniqueRows d.shared.db ∧
    Evolves c.shared d.shared (c.procs e.proc).dispatched :=
  rows_step hinv.rows (processStep_of_next hnext)

theorem dispatched_next (h : Dispatched c id) : Dispatched d id := by
  refine ⟨h.taken.step (evolves_next hinv hnext).2, fun p row hrow => ?_⟩
  by_cases hp : p = e.proc
  · subst hp
    exact h.taken.ne_picked hinv.rows (processStep_of_next hnext) hrow
  · rw [System.next_procs_of_ne hnext hp] at hrow
    exact h.released p row hrow

/-- A payout that is attempted dispatches its withdrawal. -/
theorem dispatched_of_picked (hrow : (c.procs e.proc).picked = some row)
    (hleaves : (d.procs e.proc).picked = none) : Dispatched d row.id := by
  refine ⟨(hinv.picked _ _ hrow).2.step (evolves_next hinv hnext).2, fun p other hother => ?_⟩
  by_cases hp : p = e.proc
  · subst hp
    rw [hleaves] at hother
    cases hother
  · rw [System.next_procs_of_ne hnext hp] at hother
    intro hid
    exact hp (hinv.pickedOnce p e.proc other row hother hrow hid)

theorem picked_next {p : ℕ} (hrow : (d.procs p).picked = some row) :
    Stored d.shared row ∧ Taken d.shared row.id := by
  obtain ⟨-, hrows⟩ := evolves_next hinv hnext
  by_cases hp : p = e.proc
  · subst hp
    obtain ⟨pending, hfind, -, rfl, -, hstore⟩ := picked_step (processStep_of_next hnext) hrow
    have hmem : pending.startProcessing ∈ d.shared.db.withdrawals := by
      rw [hstore]
      exact List.mem_map.mpr ⟨pending, (lookup_mem hfind).1, if_pos rfl⟩
    exact ⟨⟨_, hmem, rfl, rfl⟩, _, hmem, rfl, WithdrawalStatus.noConfusion⟩
  · rw [System.next_procs_of_ne hnext hp] at hrow
    obtain ⟨hstored, htaken⟩ := hinv.picked p row hrow
    exact ⟨hstored.step hrows, htaken.step hrows⟩

theorem pickedOnce_next {p q : ℕ} {other : WithdrawalRequest}
    (hp : (d.procs p).picked = some row) (hq : (d.procs q).picked = some other)
    (hid : row.id = other.id) : p = q := by
  have hstep := processStep_of_next hnext
  by_cases hpe : p = e.proc <;> by_cases hqe : q = e.proc
  · rw [hpe, hqe]
  · subst hpe
    rw [System.next_procs_of_ne hnext hqe] at hq
    exact absurd hid ((hinv.picked q other hq).2.ne_picked hinv.rows hstep hp)
  · subst hqe
    rw [System.next_procs_of_ne hnext hpe] at hp
    exact absurd hid.symm ((hinv.picked p row hp).2.ne_picked hinv.rows hstep hq)
  · rw [System.next_procs_of_ne hnext hpe] at hp
    rw [System.next_procs_of_ne hnext hqe] at hq
    exact hinv.pickedOnce p q row other hp hq hid

theorem worked_next {p : ℕ} (hrow : row ∈ (d.procs p).dispatched) :
    Stored d.shared row ∧ Dispatched d row.id := by
  obtain ⟨-, hrows⟩ := evolves_next hinv hnext
  have hkept (h : Stored c.shared row ∧ Dispatched c row.id) :
      Stored d.shared row ∧ Dispatched d row.id :=
    ⟨h.1.step hrows, dispatched_next hinv hnext h.2⟩
  by_cases hp : p = e.proc
  · subst hp
    rcases dispatched_step (processStep_of_next hnext) hrow with
      hold | ⟨hpicked, hleaves⟩ | ⟨hmem, htx, -⟩
    · exact hkept (hinv.dispatched _ _ hold)
    · exact ⟨(hinv.picked _ _ hpicked).1.step hrows, dispatched_of_picked hinv hnext hpicked hleaves⟩
    · exact hkept ⟨⟨row, hmem, rfl, rfl⟩, hinv.recorded _ hmem htx⟩
  · rw [System.next_procs_of_ne hnext hp] at hrow
    exact hkept (hinv.dispatched p row hrow)

theorem recorded_next (hrow : row ∈ d.shared.db.withdrawals) (htx : row.txHash.isSome) :
    Dispatched d row.id := by
  rcases (evolves_next hinv hnext).2.recorded row hrow htx with
    ⟨old, hmem, hid, hold⟩ | ⟨worked, hworked, hid⟩
  · exact hid ▸ dispatched_next hinv hnext (hinv.recorded old hmem hold)
  · exact hid ▸ dispatched_next hinv hnext (hinv.dispatched _ _ hworked).2

theorem submitted_next {tx : ChainTransaction} (htx : tx ∈ d.shared.chain) :
    Dispatched d tx.withdrawalId := by
  rcases chain_step (processStep_of_next hnext) htx with
    ⟨old, hmem, hid, -⟩ | ⟨row, hpicked, hleaves, hid⟩
  · exact hid ▸ dispatched_next hinv hnext (hinv.submitted old hmem)
  · exact hid ▸ dispatched_of_picked hinv hnext hpicked hleaves

theorem refunding_next (hcall : .refund row ∈ d.shared.inFlight) :
    Stored d.shared row ∧ Dispatched d row.id := by
  have hold : Stored c.shared row ∧ Dispatched c row.id := by
    rcases inFlight_step (processStep_of_next hnext) hcall with hmem | ⟨hcall, -⟩
    · exact hinv.refunding row hmem
    · exact hinv.dispatched _ _ (nextCall_refund hcall)
  exact ⟨hold.1.step (evolves_next hinv hnext).2, dispatched_next hinv hnext hold.2⟩

omit hnext in
/-- A refund that takes effect is that of a dispatched withdrawal. -/
theorem effective_refund (h : Effective c.shared (c.procs e.proc) e.action (.refund row)) :
    Stored c.shared row ∧ Dispatched c row.id := by
  rcases h.2 with ⟨-, hcall⟩ | ⟨-, hmem⟩
  · exact hinv.dispatched _ _ (nextCall_refund hcall)
  · exact hinv.refunding row hmem

theorem refunded_next {scope : Uuid × String} (h : Refunded d.shared scope) :
    ∃ row ∈ d.shared.db.withdrawals, row.scope = scope ∧ Dispatched d row.id := by
  obtain ⟨-, hrows⟩ := evolves_next hinv hnext
  have hold : ∃ row ∈ c.shared.db.withdrawals, row.scope = scope ∧ Dispatched c row.id := by
    rcases refunded_step hinv.accounts (processStep_of_next hnext) h with hold | ⟨row, heffect, rfl⟩
    · exact hinv.refunded scope hold
    · obtain ⟨⟨stored, hmem, hid, hterms⟩, hdispatched⟩ := effective_refund hinv heffect
      exact ⟨stored, hmem, congrArg WithdrawalTerms.scope hterms, hid.symm ▸ hdispatched⟩
  obtain ⟨row, hmem, rfl, hdispatched⟩ := hold
  obtain ⟨row', hmem', hid, hterms, -⟩ := hrows.persists row hmem
  exact ⟨row', hmem', congrArg WithdrawalTerms.scope hterms,
    hid.symm ▸ dispatched_next hinv hnext hdispatched⟩

theorem payoutInvariant_next : PayoutInvariant d where
  accounts := (ledger_step hinv.accounts (processStep_of_next hnext)).1
  rows := (evolves_next hinv hnext).1
  picked _ _ := picked_next hinv hnext
  pickedOnce _ _ _ _ := pickedOnce_next hinv hnext
  dispatched _ _ := worked_next hinv hnext
  recorded _ := recorded_next hinv hnext
  submitted _ := submitted_next hinv hnext
  refunding _ := refunding_next hinv hnext
  refunded _ := refunded_next hinv hnext

end Next

/-! ### Locks and their compensation -/

/-- The ledger has a row under the lock key of the client key. -/
def LockUsed (s : TransfersStore) (key : String) : Prop :=
  ∃ t ∈ s.accounts.ledgerTransactions, t.idempotencyKey = some (lockPrefix ++ key)

/-- What a successful lock call leaves in the ledger: a row of its own, or the row that it
replays. -/
theorem lock_succeeds (hdb : WellFormed s.accounts)
    (h : (BalanceCall.lock terms).succeeds s.accounts = true) :
    ∃ t ∈ (perform s (.lock terms)).accounts.ledgerTransactions,
      t.idempotencyKey = some (lockPrefix ++ terms.idempotencyKey) ∧
      replayData t = (terms.amount.units, terms.currency, .lock) ∧
      (¬LockUsed s terms.idempotencyKey ∧ t.userId = terms.userId ∨
        s.accounts.findLedgerByIdempotencyKey (lockPrefix ++ terms.idempotencyKey) = some t) := by
  rcases run_cases (.lock terms) hdb with
    ⟨hreplay, hsame⟩ | ⟨-, -, hunused, t, hentry, hledger⟩
  · rcases succeeds_cases hdb h with heffect | ⟨t, ht, hdata⟩
    · rw [heffect] at hreplay
      cases hreplay
    · have hmem : t ∈ (perform s (.lock terms)).accounts.ledgerTransactions := by
        rw [perform, hsame]
        exact (lookup_mem ht).1
      exact ⟨t, hmem, (lookup_mem ht).2, hdata, Or.inr ht⟩
  · have hmem : t ∈ (perform s (.lock terms)).accounts.ledgerTransactions := by
      rw [perform, hledger]
      exact List.mem_append_right _ (List.mem_singleton_self t)
    refine ⟨t, hmem, hentry.key, ?_, Or.inl ⟨?_, hentry.userId⟩⟩
    · exact Prod.ext hentry.amount (Prod.ext hentry.currency hentry.type)
    · rintro ⟨u, hu, hkey⟩
      exact lookup_eq_none.mp hunused u hu hkey

theorem ledger_persists (hdb : WellFormed s.accounts) (h : ProcessStep s l action s' l')
    {t : LedgerTransaction} (ht : t ∈ s.accounts.ledgerTransactions) :
    t ∈ s'.accounts.ledgerTransactions := by
  obtain ⟨-, ts, hledger, -⟩ := ledger_step hdb h
  rw [hledger]
  exact List.mem_append_left _ ht

/-- A compensating unlock belongs to a lock key that has been used. -/
structure CompensationInvariant (c : WithdrawalsConfig) : Prop where
  locked : ∀ p terms, (c.procs p).locked = some terms → LockUsed c.shared terms.idempotencyKey
  compensating : ∀ terms, .compensate terms ∈ c.shared.inFlight →
    LockUsed c.shared terms.idempotencyKey
  compensated : ∀ scope, Compensated c.shared scope → LockUsed c.shared scope.2

theorem compensationInvariant_initial : CompensationInvariant initial where
  locked _ _ h := by cases h
  compensating _ h := by cases h
  compensated _ h := by
    obtain ⟨t, ht, -⟩ := h
    cases ht

theorem compensationInvariant_next (hdb : WellFormed c.shared.accounts)
    (hinv : CompensationInvariant c) (hnext : withdrawalsSystem.next c e = some d) :
    CompensationInvariant d := by
  have hstep := processStep_of_next hnext
  have hkept {key : String} (h : LockUsed c.shared key) : LockUsed d.shared key := by
    obtain ⟨t, ht, hkey⟩ := h
    exact ⟨t, ledger_persists hdb hstep ht, hkey⟩
  refine ⟨fun p terms hterms => ?_, fun terms hcall => hkept ?_, fun scope hscope => hkept ?_⟩
  · by_cases hp : p = e.proc
    · subst hp
      rcases locked_step hstep hterms with ⟨hrelying, -⟩ | ⟨-, -, hstore, hsucceeds⟩
      · exact hkept (hinv.locked _ _ (locked_of_relying hrelying))
      · obtain ⟨t, ht, hkey, -⟩ := lock_succeeds hdb hsucceeds
        rw [hstore]
        exact ⟨t, ht, hkey⟩
    · rw [System.next_procs_of_ne hnext hp] at hterms
      exact hkept (hinv.locked p terms hterms)
  · rcases inFlight_step hstep hcall with hmem | ⟨hcall, -⟩
    · exact hinv.compensating terms hmem
    · exact hinv.locked _ _ (nextCall_compensate hcall)
  · rcases compensated_step hdb hstep hscope with hold | ⟨terms, heffect, rfl⟩
    · exact hinv.compensated scope hold
    · rcases heffect.2 with ⟨-, hcall⟩ | ⟨-, hmem⟩
      · exact hinv.locked _ _ (nextCall_compensate hcall)
      · exact hinv.compensating terms hmem

end EtherTrade.WithdrawalTransactionInvariants
