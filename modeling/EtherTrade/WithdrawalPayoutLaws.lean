import EtherTrade.WithdrawalTransactionInvariants

/-!
# Payouts and the locks behind them

Whether a payout is backed by a lock of its user at the moment it is broadcast, over every
interleaving of withdrawal requests, their compensating unlocks, and processors.
-/

namespace EtherTrade.WithdrawalPayoutLaws

open KeyedRows AccountsSchema AccountsDbInvariants BalanceMutations SequentialRequests
open IdempotencyKeyIsolation WithdrawalsSchema WithdrawalTransactions
open WithdrawalTransactionSteps WithdrawalTransactionInvariants InterleavedProcesses

variable {c d : WithdrawalsConfig} {e : Event Action} {es : List (Event Action)}
  {s : TransfersStore} {terms : WithdrawalTerms} {row : WithdrawalRequest}
  {t : LedgerTransaction} {scope : Uuid × String}

/-! ### Conditions on a step -/

/-- The lock call of a request is answered by a replay of the ledger row `t`. -/
structure LockReplay (c : WithdrawalsConfig) (e : Event Action) (terms : WithdrawalTerms)
    (t : LedgerTransaction) : Prop where
  process : c.procs e.proc = .requesting terms .locking
  action : e.action = .call .answered
  found : c.shared.accounts.findLedgerByIdempotencyKey (lockPrefix ++ terms.idempotencyKey) =
    some t
  data : replayData t = (terms.amount.units, terms.currency, .lock)

/-- A replayed lock is one of the caller. -/
def ReplaysOwn (c : WithdrawalsConfig) (e : Event Action) : Prop :=
  ∀ terms t, LockReplay c e terms t → t.userId = terms.userId

/-- Locks that are taken over or left behind stay locked: a lock is not replayed after its
compensating unlock, and a compensating unlock takes effect only when no row of the request is
stored and no call is about to store one. -/
structure KeepsLocks (c : WithdrawalsConfig) (e : Event Action) : Prop where
  replays : ∀ terms t, LockReplay c e terms t → ¬Compensated c.shared terms.scope
  stored : ∀ terms, Effective c.shared (c.procs e.proc) e.action (.compensate terms) →
    ∀ row ∈ c.shared.db.withdrawals, row.scope ≠ terms.scope
  relying : ∀ terms, Effective c.shared (c.procs e.proc) e.action (.compensate terms) →
    ∀ p other, (c.procs p).relying = some other → other.scope ≠ terms.scope

/-! ### Locks that stay -/

/-- The lock of a stored request, and of a call about to store one, is not compensated. -/
structure LocksHeld (c : WithdrawalsConfig) : Prop where
  relying : ∀ p terms, (c.procs p).relying = some terms → ¬Compensated c.shared terms.scope
  stored : ∀ row ∈ c.shared.db.withdrawals, ¬Compensated c.shared row.scope

/-- The process has just been answered that its lock is there. -/
theorem relying_step (hnext : withdrawalsSystem.next c e = some d)
    (hterms : (d.procs e.proc).relying = some terms) :
    c.procs e.proc = .requesting terms .locking ∧ e.action = .call .answered ∧
      d.shared = perform c.shared (.lock terms) ∧
        (BalanceCall.lock terms).succeeds c.shared.accounts = true := by
  rcases locked_step (processStep_of_next hnext) (locked_of_relying hterms) with ⟨-, hnone⟩ | h
  · rw [hnone] at hterms
    cases hterms
  · exact h

theorem locksHeld_next (hpayout : PayoutInvariant c) (hcompensation : CompensationInvariant c)
    (hinv : LocksHeld c) (hguard : KeepsLocks c e)
    (hnext : withdrawalsSystem.next c e = some d) : LocksHeld d := by
  have hstep := processStep_of_next hnext
  have hrelying {p : ℕ} {terms : WithdrawalTerms} (h : (c.procs p).relying = some terms) :
      ¬Compensated d.shared terms.scope := by
    intro hscope
    rcases compensated_step hpayout.accounts hstep hscope with hold | ⟨other, heffect, hother⟩
    · exact hinv.relying p terms h hold
    · exact hguard.relying other heffect p terms h hother.symm
  refine ⟨fun p terms hterms => ?_, fun row hrow hscope => ?_⟩
  · by_cases hp : p = e.proc
    · subst hp
      obtain ⟨hl, haction, -, hsucceeds⟩ := relying_step hnext hterms
      intro hscope
      rcases compensated_step hpayout.accounts hstep hscope with hold | ⟨other, heffect, -⟩
      · obtain ⟨t, -, -, hdata, ⟨hunused, -⟩ | hfound⟩ := lock_succeeds hpayout.accounts hsucceeds
        · exact hunused (hcompensation.compensated _ hold)
        · exact hguard.replays terms t ⟨hl, haction, hfound, hdata⟩ hold
      · rcases heffect.2 with ⟨-, hcall⟩ | ⟨harrive, -⟩
        · rw [hl] at hcall
          cases hcall
        · rw [haction] at harrive
          cases harrive
    · rw [System.next_procs_of_ne hnext hp] at hterms
      exact hrelying hterms
  · rcases terms_step hstep hrow with ⟨old, hmem, -, hterms⟩ | hterms
    · have hsame : old.scope = row.scope := congrArg WithdrawalTerms.scope hterms
      rcases compensated_step hpayout.accounts hstep hscope with hold | ⟨other, heffect, hother⟩
      · exact hinv.stored old hmem (hsame ▸ hold)
      · exact hguard.stored other heffect old hmem (hsame.trans hother.symm)
    · exact hrelying hterms hscope

/-! ### Locks of the user -/

/-- The ledger has a lock of the user for what was requested. -/
def Locked (s : TransfersStore) (terms : WithdrawalTerms) : Prop :=
  ∃ t ∈ s.accounts.ledgerTransactions, t.userId = terms.userId ∧
    t.idempotencyKey = some (lockPrefix ++ terms.idempotencyKey) ∧
      replayData t = (terms.amount.units, terms.currency, .lock)

/-- A stored request, and a call about to store one, has a lock of its user. -/
structure LocksOwned (c : WithdrawalsConfig) : Prop where
  relying : ∀ p terms, (c.procs p).relying = some terms → Locked c.shared terms
  stored : ∀ row ∈ c.shared.db.withdrawals, Locked c.shared row.toWithdrawalTerms

theorem locksOwned_next (hpayout : PayoutInvariant c) (hinv : LocksOwned c)
    (hguard : ReplaysOwn c e) (hnext : withdrawalsSystem.next c e = some d) : LocksOwned d := by
  have hstep := processStep_of_next hnext
  have hkept {terms : WithdrawalTerms} (h : Locked c.shared terms) : Locked d.shared terms := by
    obtain ⟨t, ht, hlock⟩ := h
    exact ⟨t, ledger_persists hpayout.accounts hstep ht, hlock⟩
  refine ⟨fun p terms hterms => ?_, fun row hrow => ?_⟩
  · by_cases hp : p = e.proc
    · subst hp
      obtain ⟨hl, haction, hstore, hsucceeds⟩ := relying_step hnext hterms
      obtain ⟨t, ht, hkey, hdata, hown⟩ := lock_succeeds hpayout.accounts hsucceeds
      rw [hstore]
      rcases hown with ⟨-, huser⟩ | hfound
      · exact ⟨t, ht, huser, hkey, hdata⟩
      · exact ⟨t, ht, hguard terms t ⟨hl, haction, hfound, hdata⟩, hkey, hdata⟩
    · rw [System.next_procs_of_ne hnext hp] at hterms
      exact hkept (hinv.relying p terms hterms)
  · rcases terms_step hstep hrow with ⟨old, hmem, -, hterms⟩ | hterms
    · exact hterms ▸ hkept (hinv.stored old hmem)
    · exact hkept (hinv.relying _ _ hterms)

/-! ### Runs -/

/-- The row has a lock of its amount on its user's account, made under the key of the
request, and no unlock for the request has released it. -/
structure Backed (s : TransfersStore) (row : WithdrawalRequest) : Prop where
  lock : ∃ t account, t ∈ s.accounts.ledgerTransactions ∧ t.type = .lock ∧
    t.amount = row.amount.units ∧ t.idempotencyKey = some (lockPrefix ++ row.idempotencyKey) ∧
    s.accounts.findById t.accountId = some account ∧ account.owner = (row.userId, row.currency)
  notCompensated : ¬Compensated s row.scope
  notRefunded : ¬Refunded s row.scope

structure BackingInvariant (c : WithdrawalsConfig) : Prop where
  payout : PayoutInvariant c
  compensation : CompensationInvariant c
  held : LocksHeld c
  owned : LocksOwned c

theorem locksHeld_initial : LocksHeld initial :=
  ⟨fun _ _ h => (by cases h), fun _ h => absurd h List.not_mem_nil⟩

theorem backingInvariant_initial : BackingInvariant initial where
  payout := payoutInvariant_initial
  compensation := compensationInvariant_initial
  held := locksHeld_initial
  owned := ⟨fun _ _ h => (by cases h), fun _ h => absurd h List.not_mem_nil⟩

/-- A row that is about to be paid out is backed. -/
theorem BackingInvariant.backed (hinv : BackingInvariant c) {p : ℕ}
    (hrow : (c.procs p).picked = some row) : Backed c.shared row := by
  obtain ⟨⟨stored, hmem, hid, hterms⟩, -⟩ := hinv.payout.picked p row hrow
  have hscope : stored.scope = row.scope := congrArg WithdrawalTerms.scope hterms
  refine ⟨?_, hscope ▸ hinv.held.stored stored hmem, fun hrefunded => ?_⟩
  · obtain ⟨t, ht, huser, hkey, hdata⟩ := hinv.owned.stored stored hmem
    rw [hterms] at huser hkey hdata
    obtain ⟨hamount, hrest⟩ := Prod.mk.inj hdata
    obtain ⟨hcurrency, htype⟩ := Prod.mk.inj hrest
    obtain ⟨account, hfound, howner⟩ := hinv.payout.accounts.ledgerOwners t ht
    exact ⟨t, account, ht, htype, hamount, hkey, hfound, by rw [howner, huser, hcurrency]⟩
  · obtain ⟨refunded, hmem', hscope', hdispatched⟩ := hinv.payout.refunded _ hrefunded
    have hsame : stored = refunded :=
      hinv.payout.rows.scopes.eq hmem hmem' (hscope.trans hscope'.symm)
    exact hdispatched.released p row hrow (hid.symm.trans (congrArg WithdrawalRequest.id hsame))

/-- The step hands a payout of the row to the node. -/
def Broadcasts (c : WithdrawalsConfig) (e : Event Action) (row : WithdrawalRequest) : Prop :=
  c.procs e.proc = .executing row .broadcasting ∧ (∃ outcome, e.action = .broadcast outcome) ∧
    (withdrawalsSystem.next c e).isSome

/-- A payout is backed by a live lock of its user in every run in which replayed locks are
the caller's own and are not yet compensated, and in which a compensating unlock takes effect
only when no row of its request is stored or about to be. -/
theorem payout_backed
    (h : withdrawalsSystem.Run (fun c e => ReplaysOwn c e ∧ KeepsLocks c e) initial es c) :
    ∀ e row, Broadcasts c e row → Backed c.shared row := by
  have hinv : BackingInvariant c := h.invariant backingInvariant_initial
    fun c e d hinv hguard hnext => ⟨payoutInvariant_next hinv.payout hnext,
      compensationInvariant_next hinv.payout.accounts hinv.compensation hnext,
      locksHeld_next hinv.payout hinv.compensation hinv.held hguard.2 hnext,
      locksOwned_next hinv.payout hinv.owned hguard.1 hnext⟩
  rintro e row ⟨hl, -, -⟩
  exact hinv.backed (p := e.proc) (by rw [hl]; rfl)

/-! ### Duplicates in flight -/

instance (keyPrefix : String) (s : TransfersStore) (scope : Uuid × String) :
    Decidable (Unlocked keyPrefix s scope) := inferInstanceAs (Decidable (∃ _ ∈ _, _))

/-- A step that replays no lock but the caller's own, while it is held, and that makes no
compensating unlock take effect. -/
def keepsLocks (t : System.Transition TransfersStore Process Action) : Bool :=
  match t.before.procs t.event.proc, t.event.action with
  | .requesting terms .locking, .call .answered =>
    match t.before.shared.accounts.findLedgerByIdempotencyKey
      (lockPrefix ++ terms.idempotencyKey) with
    | none => true
    | some earlier => decide (earlier.userId = terms.userId ∧
        ¬Compensated t.before.shared terms.scope)
  | .requesting _ .compensating, .call .answered => false
  | _, .arrive (.compensate _) => false
  | _, _ => true

theorem not_effective_compensate {t : System.Transition TransfersStore Process Action}
    (h : keepsLocks t = true) :
    ¬Effective t.before.shared (t.before.procs t.event.proc) t.event.action
      (.compensate terms) := by
  rintro ⟨-, ⟨haction, hcall⟩ | ⟨haction, -⟩⟩
  · unfold Process.nextCall at hcall
    split at hcall <;> cases hcall
    next hl => simp [keepsLocks, hl, haction] at h
  · unfold keepsLocks at h
    rw [haction] at h
    split at h <;> simp_all

theorem keepsLocks_spec {t : System.Transition TransfersStore Process Action}
    (h : keepsLocks t = true) : ReplaysOwn t.before t.event ∧ KeepsLocks t.before t.event := by
  have hreplay {terms : WithdrawalTerms} {earlier : LedgerTransaction}
      (hreplay : LockReplay t.before t.event terms earlier) : earlier.userId = terms.userId ∧
        ¬Compensated t.before.shared terms.scope := by
    rw [keepsLocks, hreplay.process, hreplay.action] at h
    simp only [hreplay.found] at h
    exact of_decide_eq_true h
  exact ⟨fun _ _ h => (hreplay h).1, fun _ _ h => (hreplay h).2,
    fun _ heffect => absurd heffect (not_effective_compensate h),
    fun _ heffect => absurd heffect (not_effective_compensate h)⟩

/-- An executed schedule whose transitions pass the check is a run under the conditions. -/
theorem run_of_keepsLocks (h : withdrawalsSystem.exec initial es = some c)
    (hall : (withdrawalsSystem.transitions initial es).all keepsLocks = true) :
    withdrawalsSystem.Run (fun c e => ReplaysOwn c e ∧ KeepsLocks c e) initial es c :=
  .of_check h hall fun _ => keepsLocks_spec

def oneEther : WithdrawalTerms where
  userId := "u"
  idempotencyKey := "k"
  destinationAddress := "0xd"
  currency := .eth
  amount := .coins 1

/-- A withdrawal is requested twice with one client key. Both calls find no row and hold the
lock; the first one stores its row, and the unique index refuses the second. -/
def duplicateRequest : List (Event Action) :=
  [⟨0, .accounts (.call .deposit "a" ⟨"u", .eth, .coins 5, "faucet", none⟩)⟩,
    ⟨1, .requestWithdrawal oneEther⟩, ⟨2, .requestWithdrawal oneEther⟩, ⟨1, .statement⟩,
    ⟨2, .statement⟩, ⟨1, .call .answered⟩, ⟨2, .call .answered⟩, ⟨1, .insert "w"⟩,
    ⟨2, .insert "x"⟩]

def pickRow : Event Action := ⟨3, .processNextWithdrawal "w"⟩

/-- The compensating unlock of the second call does not reach the accounts service. -/
def unreachedCompensation : List (Event Action) :=
  duplicateRequest ++ [⟨2, .call .unanswered⟩, pickRow]

/-- The compensating unlock of the second call takes effect. -/
def effectiveCompensation : List (Event Action) :=
  duplicateRequest ++ [⟨2, .call .answered⟩, pickRow]

def broadcastRow : Event Action := ⟨3, .broadcast (.sent "0x1")⟩

def pickedRow : WithdrawalRequest := (WithdrawalRequest.create oneEther "w").startProcessing

theorem unreachedCompensation_executes :
    (withdrawalsSystem.exec initial unreachedCompensation).isSome = true := by decide +kernel

theorem effectiveCompensation_executes :
    (withdrawalsSystem.exec initial effectiveCompensation).isSome = true := by decide +kernel

theorem payout_backed_unreachedCompensation :
    Backed ((withdrawalsSystem.exec initial unreachedCompensation).get
      unreachedCompensation_executes).shared pickedRow :=
  payout_backed (run_of_keepsLocks (Option.some_get _).symm (by decide +kernel)) broadcastRow
    pickedRow ⟨by decide +kernel, ⟨_, rfl⟩, by decide +kernel⟩

/-- The call that loses the insert gives up the lock that the stored row relies on, since
both calls share it: the row is paid out although its lock is released. -/
theorem payout_unbacked_effectiveCompensation : ¬∀ es c, withdrawalsSystem.exec initial es = some c →
    ∀ e row, Broadcasts c e row → Backed c.shared row := by
  intro h
  have hbacked := h effectiveCompensation _ (Option.some_get effectiveCompensation_executes).symm
    broadcastRow pickedRow ⟨by decide +kernel, ⟨_, rfl⟩, by decide +kernel⟩
  exact hbacked.notCompensated (by decide +kernel)

end EtherTrade.WithdrawalPayoutLaws
