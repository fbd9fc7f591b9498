import EtherTrade.WithdrawalEntries
import EtherTrade.WithdrawalRefundLaws

/-!
# Final withdrawals and the ledger

Whether a completed withdrawal has its debit in the ledger, and a failed one its unlock, over
every run of requests, processors and recovery passes, their crashes and failures.
-/

namespace EtherTrade.WithdrawalEntryLaws

open KeyedRows AccountsSchema AccountsDbInvariants BalanceMutations BalanceMutationCorrectness
open SequentialRequests WithdrawalsSchema WithdrawalTransactions WithdrawalTransactionSteps
open WithdrawalTransactionInvariants WithdrawalPayoutLaws WithdrawalRefundLaws
open WithdrawalRecovery WithdrawalEntries InterleavedProcesses

variable {c d : WithdrawalsConfig} {e : CrashEvent} {es : List CrashEvent} {s : TransfersStore}
  {l : Process} {row other : WithdrawalRequest} {status : WithdrawalStatus} {p : ℕ}

/-- The call that settles a withdrawal which ends with the status. -/
def settlement (status : WithdrawalStatus) (row : WithdrawalRequest) : BalanceCall :=
  match status with
  | .failed => .refund row
  | _ => .debit row

theorem performed_settlement (h : Performed s (settlement status row)) (hid : other.id = row.id)
    (hterms : other.toWithdrawalTerms = row.toWithdrawalTerms) :
    Performed s (settlement status other) := by
  have hkey : other.idempotencyKey = row.idempotencyKey := congrArg (·.idempotencyKey) hterms
  have hdebit (h : Performed s (.debit row)) : Performed s (.debit other) :=
    h.congr rfl (congrArg (debitPrefix ++ ·) hid) hid hterms
  cases status with
  | failed => exact h.congr rfl (congrArg (refundPrefix ++ ·) hkey) hid hterms
  | pending => exact hdebit h
  | processing => exact hdebit h
  | completed => exact hdebit h

/-! ### Debits -/

/-- Every debit under the key of a withdrawal was made for it. -/
def DebitsOwn (s : TransfersStore) : Prop :=
  ∀ t ∈ s.accounts.ledgerTransactions, ∀ id, t.type = .withdrawal →
    t.idempotencyKey = some (debitPrefix ++ id) →
      ∃ made, Stored s made ∧ made.id = id ∧ Entry (.debit made) t

theorem debitsOwn_step {a : Action} (hinv : HandsInvariant c) (hdebits : DebitsOwn c.shared)
    (hallowed : Undebited a) (hnext : withdrawalsSystem.next c ⟨p, a⟩ = some d) :
    DebitsOwn d.shared := by
  have hstep := processStep_of_next hnext
  obtain ⟨-, hevolves⟩ := rows_step hinv.rows hstep
  intro t ht id htype hkey
  rcases debit_step hinv.accounts hallowed hstep ht htype hkey with
    hold | ⟨made, heffective, hentry, hid⟩
  · obtain ⟨made, hstored, hmade⟩ := hdebits t hold id htype hkey
    exact ⟨made, hstored.step hevolves, hmade⟩
  · have hstored : Stored c.shared made := by
      rcases heffective.2 with ⟨-, hcall⟩ | ⟨-, hflight⟩
      · exact hinv.stored p made (nextCall_inHand (Or.inl hcall))
      · exact hinv.calls made (Or.inl hflight)
    exact ⟨made, hstored.step hevolves, hid, hentry⟩

theorem terms_eq (hinv : HandsInvariant c) (hstored : Stored c.shared row)
    (hrow : other ∈ c.shared.db.withdrawals) (hid : other.id = row.id) :
    other.toWithdrawalTerms = row.toWithdrawalTerms := by
  obtain ⟨stored, hmem, hsame, hterms⟩ := hstored
  have heq : stored = other := hinv.rows.ids.eq hmem hrow (hsame.trans hid.symm)
  exact heq ▸ hterms

/-- A debit that succeeds, be it new or a replay, is in the ledger. -/
theorem performed_debit (hinv : HandsInvariant c) (hdebits : DebitsOwn c.shared)
    (hrow : Stored c.shared row)
    (hsucceeds : (BalanceCall.debit row).succeeds c.shared.accounts = true) :
    Performed (perform c.shared (.debit row)) (.debit row) := by
  rcases succeeds_cases hinv.accounts hsucceeds with heffect | ⟨t, hfound, hdata⟩
  · exact performed_of_takesEffect hinv.accounts heffect
  · obtain ⟨ht, hkey⟩ := lookup_mem hfound
    have htype : t.type = .withdrawal := congrArg (fun data => data.2.2) hdata
    obtain ⟨made, hmade, hid, hentry⟩ := hdebits t ht row.id htype hkey
    obtain ⟨stored, hmem, hsame, hterms⟩ := hrow
    have hmadeTerms := terms_eq hinv hmade hmem (hsame.trans hid.symm)
    have hperformed : Performed (perform c.shared (.debit row)) (settlement .completed made) :=
      performed_of_entry hentry (mem_perform hinv.accounts ht)
    have hother : Performed (perform c.shared (.debit row)) (settlement .completed row) :=
      performed_settlement hperformed hid.symm (hterms.symm.trans hmadeTerms)
    exact hother

/-! ### Unlocks -/

/-- The unlock of the row will take effect: its key is not in use, and the account of its user
has the amount locked. -/
structure Refundable (s : TransfersStore) (row : WithdrawalRequest) : Prop where
  unused : s.accounts.findLedgerByIdempotencyKey (refundPrefix ++ row.idempotencyKey) = none
  covered : ∃ account, s.accounts.findByUserAndCurrency row.userId row.currency = some account ∧
    row.amount.units ≤ account.lockedBalance

theorem takesEffect_of_refundable (h : Refundable s row) :
    (BalanceCall.refund row).takesEffect s.accounts = true := by
  obtain ⟨account, hfound, hlocked⟩ := h.covered
  have hreplay : resolveIdempotencyReplay unlockMutation.expectedType
      (BalanceCall.refund row).params s.accounts = none :=
    (resolveIdempotencyReplay_eq_none _).mpr h.unused
  have hfound' : s.accounts.findByUserAndCurrency (BalanceCall.refund row).params.userId
      (BalanceCall.refund row).params.currency = some account := hfound
  have hguard : unlockMutation.refusal account (BalanceCall.refund row).params.amount = none :=
    if_pos hlocked
  unfold BalanceCall.takesEffect BalanceCall.run
  simp only [BalanceCall.operation, BalanceOperation.mutation, mutateBalance, hreplay, hfound',
    hguard]

/-- Each unlock call of a failed withdrawal is answered, and it takes effect or the
withdrawal's own unlock is already there. -/
def RefundsGoThrough (c : WithdrawalsConfig) (e : CrashEvent) : Prop :=
  ∀ row delivery, (c.procs e.proc).nextCall = some (.refund row) →
    e.action = some (.call delivery) →
      delivery = .answered ∧ (Refundable c.shared row ∨ Performed c.shared (.refund row))

/-! ### Runs -/

/-- Whoever is about to record an end with the status has settled the withdrawal, and so has
whoever recorded one. -/
structure Ends (status : WithdrawalStatus) (c : WithdrawalsConfig) : Prop where
  ending : ∀ p row, ending (c.procs p) = some (row, status) →
    Performed c.shared (settlement status row)
  ended : ∀ row ∈ c.shared.db.withdrawals, row.status = status →
    Performed c.shared (settlement status row)

theorem ends_initial (status : WithdrawalStatus) : Ends status initial :=
  ⟨fun _ _ h => (Option.some_ne_none _ h.symm).elim, fun _ h => absurd h List.not_mem_nil⟩

theorem answered_next {call : BalanceCall}
    (hnext : withdrawalsSystem.next c ⟨p, .call .answered⟩ = some d)
    (hcall : (c.procs p).nextCall = some call) : d.shared = perform c.shared call := by
  obtain ⟨s, l, hstep, rfl⟩ := System.next_eq_some.mp hnext
  have hanswered : callStep c.shared (c.procs p) .answered = some (s, l) := by
    rw [← hstep]
    change _ = step p c.shared (c.procs p) (.call .answered)
    cases c.procs p <;> rfl
  rw [callStep, hcall, Option.map_some] at hanswered
  exact (congrArg Prod.fst (Option.some.inj hanswered)).symm

theorem ends_step {a : Action} (hinv : HandsInvariant c) (hends : Ends status c)
    (hstatus : status = .completed ∨ status = .failed)
    (hnext : withdrawalsSystem.next c ⟨p, a⟩ = some d)
    (hsettles : ∀ row, WithdrawalRecovery.ending (d.procs p) = some (row, status) →
      Performed d.shared (settlement status row)) : Ends status d := by
  have hstep := processStep_of_next hnext
  have hwork := workStep_of_next hnext
  have hkept {call : BalanceCall} (h : Performed c.shared call) : Performed d.shared call :=
    h.step hinv.accounts hstep
  obtain ⟨hunique, hevolves⟩ := rows_step hinv.rows hstep
  have hd := handsInvariant_step hinv hnext
  refine ⟨fun q row hending => ?_, fun row hrow hended => ?_⟩
  · by_cases hq : q = p
    · subst hq
      exact hsettles row hending
    · rw [System.next_procs_of_ne hnext hq] at hending
      exact hkept (hends.ending q row hending)
  · have hreached : statusOf d.shared.db row.id = some status :=
      (statusOf_of_mem hunique hrow).trans (congrArg some hended)
    have hsettled {old : WithdrawalRequest} (hstored : Stored c.shared old)
        (hid : old.id = row.id) (h : Performed c.shared (settlement status old)) :
        Performed d.shared (settlement status row) :=
      performed_settlement (hkept h) hid.symm
        (terms_eq hd (hstored.step hevolves) hrow hid.symm)
    cases status_step hwork row.id with
    | same hsame =>
      obtain ⟨old, hfind, hold⟩ := Option.map_eq_some_iff.mp (hsame.symm.trans hreached)
      obtain ⟨hmem, hid⟩ := lookup_mem hfind
      exact hsettled ⟨old, hmem, rfl, rfl⟩ hid (hends.ended old hmem hold)
    | created _ hpending =>
      obtain rfl := Option.some.inj (hpending.symm.trans hreached)
      rcases hstatus with h | h <;> cases h
    | picked _ _ _ _ _ hprocessing =>
      obtain rfl := Option.some.inj (hprocessing.symm.trans hreached)
      rcases hstatus with h | h <;> cases h
    | ended worked final hending _ hid hfinal =>
      rw [hfinal] at hreached
      obtain ⟨_, -, rfl⟩ := Option.map_eq_some_iff.mp hreached
      exact hsettled (hinv.stored p worked (inHand_of_ending hending)) hid
        (hends.ending p worked hending)

theorem Ends.stopped (h : Ends status c) (p : ℕ) : Ends status (stopped c p) := by
  refine ⟨fun q row hending => ?_, h.ended⟩
  rcases stopped_procs c p q with ⟨-, hproc⟩ | ⟨-, hproc⟩
  · rw [hproc] at hending
    exact (Option.some_ne_none _ hending.symm).elim
  · rw [hproc] at hending
    exact h.ending q row hending

/-- What holds of completed withdrawals in every run. -/
structure DebitInvariant (c : WithdrawalsConfig) : Prop where
  hands : HandsInvariant c
  debits : DebitsOwn c.shared
  completed : Ends .completed c

theorem debitInvariant_initial : DebitInvariant initial where
  hands := handsInvariant_initial
  debits _ h := absurd h List.not_mem_nil
  completed := ends_initial _

theorem debitInvariant_next (hinv : DebitInvariant c) (hnext : crashingSystem.next c e = some d) :
    DebitInvariant d := by
  rcases crashing_next hnext with ⟨a, -, hallowed, hnext⟩ | ⟨-, rfl⟩
  · refine ⟨handsInvariant_step hinv.hands hnext,
      debitsOwn_step hinv.hands hinv.debits hallowed hnext,
      ends_step hinv.hands hinv.completed (Or.inl rfl) hnext fun row hending => ?_⟩
    rcases ending_step (workStep_of_next hnext) hending with
      ⟨-, hcall, rfl, hsucceeds⟩ | ⟨hfailed, -⟩
    · rw [answered_next hnext hcall]
      exact performed_debit hinv.hands hinv.debits
        (hinv.hands.stored _ row (nextCall_inHand (Or.inl hcall))) hsucceeds
    · cases hfailed
  · exact ⟨hinv.hands.stopped e.proc, hinv.debits, hinv.completed.stopped e.proc⟩

theorem failed_next (hinv : HandsInvariant c) (hends : Ends .failed c)
    (hguard : RefundsGoThrough c e) (hnext : crashingSystem.next c e = some d) :
    Ends .failed d := by
  rcases crashing_next hnext with ⟨a, haction, -, hnext⟩ | ⟨-, rfl⟩
  · refine ends_step hinv hends (Or.inr rfl) hnext fun row hending => ?_
    rcases ending_step (workStep_of_next hnext) hending with
      ⟨hcompleted, -⟩ | ⟨-, hcall, delivery, rfl⟩
    · cases hcompleted
    · obtain ⟨rfl, hrefund⟩ := hguard row delivery hcall haction
      rw [answered_next hnext hcall]
      rcases hrefund with hrefundable | ⟨t, ht, hperformed⟩
      · exact performed_of_takesEffect hinv.accounts (takesEffect_of_refundable hrefundable)
      · exact ⟨t, mem_perform hinv.accounts ht, hperformed⟩
  · exact hends.stopped e.proc

/-- Every completed withdrawal has exactly one debit, whatever fails. -/
theorem completed_performedOnce {guard : WithdrawalsConfig → CrashEvent → Prop}
    (h : crashingSystem.Run guard initial es c) : ∀ row ∈ c.shared.db.withdrawals,
      row.status = .completed → PerformedOnce c.shared (.debit row) := by
  have hinv : DebitInvariant c := h.invariant debitInvariant_initial
    fun _ _ _ hinv _ hnext => debitInvariant_next hinv hnext
  exact fun row hrow hstatus =>
    (hinv.completed.ended row hrow hstatus).once hinv.hands.accounts

/-- A completed withdrawal has exactly one debit and a failed one exactly one unlock, in every
run in which each unlock of a failed withdrawal goes through. -/
theorem performedOnce_of_refundsGoThrough
    (h : crashingSystem.Run RefundsGoThrough initial es c) : ∀ row ∈ c.shared.db.withdrawals,
      (row.status = .completed → PerformedOnce c.shared (.debit row)) ∧
      (row.status = .failed → PerformedOnce c.shared (.refund row)) := by
  have hinv : HandsInvariant c ∧ Ends .failed c :=
    System.Run.invariant (I := fun c => HandsInvariant c ∧ Ends .failed c) h
      ⟨handsInvariant_initial, ends_initial _⟩ fun _ _ _ hinv hguard hnext =>
        ⟨handsInvariant_next hinv.1 hnext, failed_next hinv.1 hinv.2 hguard hnext⟩
  exact fun row hrow => ⟨completed_performedOnce h row hrow,
    fun hstatus => (hinv.2.ended row hrow hstatus).once hinv.1.accounts⟩

/-! ### An unlock that does not get through -/

/-- A step whose unlock call, if it makes one, is answered and will take effect. -/
def refundsGoThrough (t : System.Transition TransfersStore Process (Option Action)) : Bool :=
  match t.before.procs t.event.proc, t.event.action with
  | .finalizing row (.unlocking _) _, some (.call delivery) =>
    delivery = .answered &&
      (t.before.shared.accounts.findLedgerByIdempotencyKey
        (refundPrefix ++ row.idempotencyKey)).isNone &&
      (t.before.shared.accounts.findByUserAndCurrency row.userId row.currency).any fun account =>
        row.amount.units ≤ account.lockedBalance
  | _, _ => true

theorem refundsGoThrough_spec
    {t : System.Transition TransfersStore Process (Option Action)}
    (h : refundsGoThrough t = true) : RefundsGoThrough t.before t.event := by
  intro row delivery hcall haction
  unfold Process.nextCall at hcall
  split at hcall <;> cases hcall
  next hl =>
    rw [refundsGoThrough, hl, haction] at h
    simp only [Bool.and_eq_true, Option.isNone_iff_eq_none, Option.any_eq_true,
      decide_eq_true_eq] at h
    obtain ⟨⟨hdelivery, hunused⟩, account, hfound, hlocked⟩ := h
    exact ⟨hdelivery, Or.inl ⟨hunused, account, hfound, hlocked⟩⟩

theorem run_of_refundsGoThrough (h : crashingSystem.exec initial es = some c)
    (hall : (crashingSystem.transitions initial es).all refundsGoThrough = true) :
    crashingSystem.Run RefundsGoThrough initial es c :=
  .of_check h hall fun _ => refundsGoThrough_spec

/-- The node refuses the payout, and the processor unlocks the amount. -/
def refusedPayout (delivery : Delivery) : List CrashEvent :=
  uncrashed (deposited :: requested 1 2 oneEther "w" ++
    [⟨2, .broadcast (.notSent "insufficient funds")⟩, ⟨2, .call delivery⟩, ⟨2, .statement⟩])

def failedRow : WithdrawalRequest := pickedRow.fail "insufficient funds"

theorem refusedPayout_executes :
    (crashingSystem.exec initial (refusedPayout .answered)).map
      (fun c => c.shared.db.withdrawals) = some [failedRow] ∧
    (crashingSystem.transitions initial (refusedPayout .answered)).all refundsGoThrough =
      true := by
  decide +kernel

theorem performedOnce_refusedPayout :
    ∃ c, crashingSystem.exec initial (refusedPayout .answered) = some c ∧
      failedRow ∈ c.shared.db.withdrawals ∧ PerformedOnce c.shared (.refund failedRow) := by
  obtain ⟨c, hexec, hrows⟩ := Option.map_eq_some_iff.mp refusedPayout_executes.1
  have hrow : failedRow ∈ c.shared.db.withdrawals := by
    rw [hrows]
    exact List.mem_singleton_self _
  exact ⟨c, hexec, hrow, (performedOnce_of_refundsGoThrough
    (run_of_refundsGoThrough hexec refusedPayout_executes.2) failedRow hrow).2 rfl⟩

theorem lostUnlock_executes :
    (crashingSystem.exec initial (refusedPayout .unanswered)).map
      (fun c => (c.shared.db.withdrawals, c.shared.accounts.ledgerTransactions.filter
        fun t => Records (.refund failedRow) t)) = some ([failedRow], []) := by
  decide +kernel

/-- The withdrawal is recorded as failed although its unlock never reached the accounts
service. -/
theorem not_performedOnce_lostUnlock : ¬∀ es c, crashingSystem.exec initial es = some c →
    ∀ row ∈ c.shared.db.withdrawals,
      (row.status = .completed → PerformedOnce c.shared (.debit row)) ∧
      (row.status = .failed → PerformedOnce c.shared (.refund row)) := by
  intro h
  obtain ⟨c, hexec, hresult⟩ := Option.map_eq_some_iff.mp lostUnlock_executes
  obtain ⟨hrows, hledger⟩ := Prod.mk.inj hresult
  have hrow : failedRow ∈ c.shared.db.withdrawals := by
    rw [hrows]
    exact List.mem_singleton_self _
  obtain ⟨t, hone, -⟩ := (h _ c hexec failedRow hrow).2 rfl
  rw [hledger] at hone
  exact absurd hone (List.cons_ne_nil _ _).symm

end EtherTrade.WithdrawalEntryLaws
