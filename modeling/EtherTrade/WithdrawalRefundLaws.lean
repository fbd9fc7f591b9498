import EtherTrade.WithdrawalPayoutLaws

/-!
# Paid out or unlocked, not both

Whether a withdrawal whose transaction succeeds on the chain can also have its amount
unlocked, over every run of the processor, its failures, crashes and recovery passes,
together with the requests.
-/

namespace EtherTrade.WithdrawalRefundLaws

open KeyedRows AccountsSchema AccountsDbInvariants BalanceMutations SequentialRequests
open WithdrawalsSchema WithdrawalTransactions WithdrawalTransactionSteps
open WithdrawalTransactionInvariants WithdrawalPayoutLaws InterleavedProcesses

variable {c d : WithdrawalsConfig} {e : Event Action} {es : List (Event Action)}

/-- A transaction that pays the withdrawal has been mined successfully. -/
def PaidOut (s : TransfersStore) (id : Uuid) : Prop :=
  ∃ tx ∈ s.chain, tx.withdrawalId = id ∧ tx.status = .success

/-- Every transaction that was submitted for the withdrawal has been mined and reverted. -/
def Reverted (s : TransfersStore) (id : Uuid) : Prop :=
  ∀ tx ∈ s.chain, tx.withdrawalId = id → tx.status = .reverted

instance (s : TransfersStore) (id : Uuid) : Decidable (PaidOut s id) :=
  inferInstanceAs (Decidable (∃ _ ∈ _, _))

instance (s : TransfersStore) (id : Uuid) : Decidable (Reverted s id) :=
  inferInstanceAs (Decidable (∀ _ ∈ _, _))

/-- The unlock of a failed withdrawal takes effect only when no transaction of it is pending
or successful. -/
def RefundsReverted (c : WithdrawalsConfig) (e : Event Action) : Prop :=
  ∀ row, Effective c.shared (c.procs e.proc) e.action (.refund row) → Reverted c.shared row.id

theorem Reverted.not_paidOut {s : TransfersStore} {id : Uuid} (h : Reverted s id) :
    ¬PaidOut s id := by
  rintro ⟨tx, htx, hid, hstatus⟩
  rw [h tx htx hid] at hstatus
  cases hstatus

/-- A dispatched withdrawal whose transactions are reverted gets no other ones. -/
theorem reverted_next {id : Uuid} (hdispatched : Dispatched c id)
    (hreverted : Reverted c.shared id) (hnext : withdrawalsSystem.next c e = some d) :
    Reverted d.shared id := by
  intro tx htx hid
  rcases chain_step (processStep_of_next hnext) htx with
    ⟨old, hold, hsame, hfinal⟩ | ⟨row, hpicked, -, hrow⟩
  · have hstatus := hreverted old hold (hsame.trans hid)
    rw [hfinal (by rw [hstatus]; exact TransactionStatus.noConfusion), hstatus]
  · exact absurd (hrow.symm.trans hid) (hdispatched.released _ row hpicked)

/-- The invariant of refunds: the transactions of a refunded withdrawal are reverted. -/
structure RefundInvariant (c : WithdrawalsConfig) : Prop where
  payout : PayoutInvariant c
  compensation : CompensationInvariant c
  held : LocksHeld c
  reverted : ∀ row ∈ c.shared.db.withdrawals, Refunded c.shared row.scope →
    Reverted c.shared row.id

theorem refundInvariant_initial : RefundInvariant initial where
  payout := payoutInvariant_initial
  compensation := compensationInvariant_initial
  held := locksHeld_initial
  reverted _ h := absurd h List.not_mem_nil

/-- A refunded withdrawal was dispatched before the step, and its transactions reverted. -/
theorem reverted_of_refunded (hinv : RefundInvariant c) (hguard : RefundsReverted c e)
    (hnext : withdrawalsSystem.next c e = some d) {scope : Uuid × String}
    (h : Refunded d.shared scope) : ∃ row ∈ c.shared.db.withdrawals, row.scope = scope ∧
      Dispatched c row.id ∧ Reverted c.shared row.id := by
  rcases refunded_step hinv.payout.accounts (processStep_of_next hnext) h with
    hold | ⟨row, heffect, rfl⟩
  · obtain ⟨row, hmem, rfl, hdispatched⟩ := hinv.payout.refunded scope hold
    exact ⟨row, hmem, rfl, hdispatched, hinv.reverted row hmem hold⟩
  · obtain ⟨⟨stored, hmem, hid, hterms⟩, hdispatched⟩ := effective_refund hinv.payout heffect
    exact ⟨stored, hmem, congrArg WithdrawalTerms.scope hterms, hid.symm ▸ hdispatched,
      hid.symm ▸ hguard row heffect⟩

theorem refundInvariant_next (hinv : RefundInvariant c) (hkeeps : KeepsLocks c e)
    (hguard : RefundsReverted c e) (hnext : withdrawalsSystem.next c e = some d) :
    RefundInvariant d where
  payout := payoutInvariant_next hinv.payout hnext
  compensation := compensationInvariant_next hinv.payout.accounts hinv.compensation hnext
  held := locksHeld_next hinv.payout hinv.compensation hinv.held hkeeps hnext
  reverted row hrow hrefunded := by
    obtain ⟨hunique, hrows⟩ := evolves_next hinv.payout hnext
    obtain ⟨old, hmem, hscope, hdispatched, hreverted⟩ :=
      reverted_of_refunded hinv hguard hnext hrefunded
    obtain ⟨kept, hkept, hid, hterms, -⟩ := hrows.persists old hmem
    have hsame : kept = row := hunique.scopes.eq hkept hrow
      ((congrArg WithdrawalTerms.scope hterms).trans hscope)
    rw [← hsame, hid]
    exact reverted_next hdispatched hreverted hnext

/-- No withdrawal is both paid out and unlocked, in every run in which the unlock of a
failed withdrawal takes effect only once its transactions are reverted, and in which locks
that requests rely on are not compensated. -/
theorem not_paidOut_and_unlocked
    (h : withdrawalsSystem.Run (fun c e => KeepsLocks c e ∧ RefundsReverted c e) initial es c) :
    ∀ row ∈ c.shared.db.withdrawals, PaidOut c.shared row.id →
      ¬Compensated c.shared row.scope ∧ ¬Refunded c.shared row.scope := by
  have hinv : RefundInvariant c := h.invariant refundInvariant_initial
    fun _ _ _ hinv hguard hnext => refundInvariant_next hinv hguard.1 hguard.2 hnext
  intro row hrow hpaid
  exact ⟨hinv.held.stored row hrow, fun hrefunded =>
    (hinv.reverted row hrow hrefunded).not_paidOut hpaid⟩

/-! ### Receipts that come late -/

/-- A step that makes no unlock of a failed withdrawal take effect while one of its
transactions may still succeed. -/
def refundsReverted (t : System.Transition TransfersStore Process Action) : Bool :=
  match t.before.procs t.event.proc, t.event.action with
  | .finalizing row (.unlocking _) _, .call .answered =>
    decide (Reverted t.before.shared row.id)
  | _, .arrive (.refund row) => decide (Reverted t.before.shared row.id)
  | _, _ => true

theorem refundsReverted_spec {t : System.Transition TransfersStore Process Action}
    (h : refundsReverted t = true) : RefundsReverted t.before t.event := by
  rintro row ⟨-, ⟨haction, hcall⟩ | ⟨haction, -⟩⟩
  · unfold Process.nextCall at hcall
    split at hcall <;> cases hcall
    next hl => simpa [refundsReverted, hl, haction] using h
  · unfold refundsReverted at h
    rw [haction] at h
    split at h <;> simp_all

/-- An executed schedule whose transitions pass the checks is a run under the conditions. -/
theorem run_of_refundsReverted (h : withdrawalsSystem.exec initial es = some c)
    (hall : (withdrawalsSystem.transitions initial es).all
      (fun t => keepsLocks t && refundsReverted t) = true) :
    withdrawalsSystem.Run (fun c e => KeepsLocks c e ∧ RefundsReverted c e) initial es c := by
  refine .of_check h hall fun t hcheck => ?_
  obtain ⟨hkeeps, hrefunds⟩ := Bool.and_eq_true_iff.mp hcheck
  exact ⟨(keepsLocks_spec hkeeps).2, refundsReverted_spec hrefunds⟩

/-- A withdrawal is requested, stored as `id` and picked by processor `q`. -/
def requested (p q : ℕ) (terms : WithdrawalTerms) (id : Uuid) : List (Event Action) :=
  [⟨p, .requestWithdrawal terms⟩, ⟨p, .statement⟩, ⟨p, .call .answered⟩, ⟨p, .insert id⟩,
    ⟨q, .processNextWithdrawal id⟩]

def deposited : Event Action :=
  ⟨0, .accounts (.call .deposit "a" ⟨"u", .eth, .coins 5, "faucet", none⟩)⟩

/-- The payout of the first withdrawal reverts, and a recovery pass unlocks it. The payout
of the second one succeeds. -/
def revertedAndPaid : List (Event Action) :=
  deposited :: requested 1 2 oneEther "w" ++
  [⟨2, .broadcast (.sent "0x1")⟩, ⟨2, .statement⟩, ⟨0, .mine "0x1" false⟩,
    ⟨3, .recoverStuckProcessingWithdrawals⟩, ⟨3, .statement⟩, ⟨3, .call .answered⟩,
    ⟨3, .statement⟩] ++
  requested 4 5 { oneEther with idempotencyKey := "l" } "x" ++
  [⟨5, .broadcast (.sent "0x2")⟩, ⟨5, .statement⟩, ⟨0, .mine "0x2" true⟩, ⟨5, .statement⟩,
    ⟨5, .call .answered⟩, ⟨5, .statement⟩]

/-- The receipt does not come in time. The processor unlocks the amount, and a later block
includes the transaction. -/
def lateReceipt : List (Event Action) :=
  deposited :: requested 1 2 oneEther "w" ++
  [⟨2, .broadcast (.sent "0x1")⟩, ⟨2, .statement⟩,
    ⟨2, .abort "Timed out while waiting for transaction with hash 0x1 to be confirmed."⟩,
    ⟨2, .call .answered⟩, ⟨2, .statement⟩, ⟨0, .mine "0x1" true⟩]

theorem revertedAndPaid_executes :
    (withdrawalsSystem.exec initial revertedAndPaid).isSome = true := by decide +kernel

theorem lateReceipt_executes :
    (withdrawalsSystem.exec initial lateReceipt).isSome = true := by decide +kernel

theorem not_paidOut_and_unlocked_revertedAndPaid :
    let s := ((withdrawalsSystem.exec initial revertedAndPaid).get revertedAndPaid_executes).shared
    Refunded s ("u", "k") ∧ PaidOut s "x" ∧ ∀ row ∈ s.db.withdrawals, PaidOut s row.id →
      ¬Compensated s row.scope ∧ ¬Refunded s row.scope :=
  ⟨by decide +kernel, by decide +kernel,
    not_paidOut_and_unlocked (run_of_refundsReverted (Option.some_get _).symm (by decide +kernel))⟩

/-- Every exception after the broadcast leads to the unlock, also one that says nothing about
the transaction: the user is paid on the chain and has the amount back. -/
theorem paidOut_and_unlocked_lateReceipt : ¬∀ es c, withdrawalsSystem.exec initial es = some c →
    ∀ row ∈ c.shared.db.withdrawals, PaidOut c.shared row.id →
      ¬Compensated c.shared row.scope ∧ ¬Refunded c.shared row.scope := by
  intro h
  let failed : WithdrawalRequest := ((WithdrawalRequest.create oneEther "w").recordTx "0x1" 0).fail
    "Timed out while waiting for transaction with hash 0x1 to be confirmed."
  exact (h lateReceipt _ (Option.some_get lateReceipt_executes).symm failed (by decide +kernel)
    (by decide +kernel)).2 (by decide +kernel)

end EtherTrade.WithdrawalRefundLaws
