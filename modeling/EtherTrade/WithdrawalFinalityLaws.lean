import EtherTrade.WithdrawalEntries
import EtherTrade.WithdrawalOwnership
import EtherTrade.WithdrawalRefundLaws

/-!
# Withdrawals that end once

Whether a withdrawal reaches one final status with one event, and is not both debited and
unlocked, over every interleaving of processors and recovery passes with their failures and
crashes.
-/

namespace EtherTrade.WithdrawalFinalityLaws

open KeyedRows AccountsSchema AccountsDbInvariants BalanceMutations SequentialRequests
open WithdrawalsSchema WithdrawalTransactions WithdrawalTransactionSteps
open WithdrawalTransactionInvariants WithdrawalPayoutLaws WithdrawalRefundLaws
open WithdrawalRecovery WithdrawalEntries WithdrawalOwnership InterleavedProcesses

variable {c d : WithdrawalsConfig} {e : CrashEvent} {es fs : List CrashEvent}
  {s s' : TransfersStore} {l l' : Process} {action : Action} {a : Action} {id : Uuid}
  {row other : WithdrawalRequest} {db' : TransfersDb} {p q : ℕ} {txHash : String}
  {status : TransactionStatus}

/-! ### Receipts -/

/-- The recorded transaction of the withdrawal has the status. -/
def Receipt (s : TransfersStore) (id : Uuid) (status : TransactionStatus) : Prop :=
  ∃ txHash, hashOf s.db id = some txHash ∧
    (findTransaction s txHash).map ChainTransaction.status = some status

/-- The status of a transaction in a block does not change. -/
theorem transaction_step (h : ProcessStep s l action s' l') (hfinal : status ≠ .pending)
    (hstatus : (findTransaction s txHash).map ChainTransaction.status = some status) :
    (findTransaction s' txHash).map ChainTransaction.status = some status := by
  cases h with
  | @submitted row tx _ _ _ _ =>
    obtain ⟨found, hfound, rfl⟩ := Option.map_eq_some_iff.mp hstatus
    change (lookup ChainTransaction.hash (s.chain ++ [tx]) txHash).map _ = _
    rw [lookup_append_singleton, show lookup ChainTransaction.hash s.chain txHash = some found
      from hfound]
    rfl
  | @mined minedHash succeeded =>
    obtain ⟨found, hfound, rfl⟩ := Option.map_eq_some_iff.mp hstatus
    have hmap : findTransaction (mineTransaction s minedHash succeeded) txHash =
        (findTransaction s txHash).map fun tx =>
          if tx.hash = minedHash ∧ tx.status = .pending then tx.mine succeeded else tx :=
      lookup_map fun tx _ => by split <;> rfl
    rw [hmap, hfound, Option.map_some, Option.map_some, if_neg fun hpending => hfinal hpending.2]
  | _ => exact hstatus

theorem Receipt.unique {other : TransactionStatus} (h : Receipt s id status)
    (h' : Receipt s id other) : status = other := by
  obtain ⟨txHash, hhash, hstatus⟩ := h
  obtain ⟨txHash', hhash', hstatus'⟩ := h'
  obtain rfl := Option.some.inj (hhash.symm.trans hhash')
  exact Option.some.inj (hstatus.symm.trans hstatus')

theorem receipt_step (hinv : Owned c) (hnext : withdrawalsSystem.next c ⟨p, a⟩ = some d)
    (hfinal : status ≠ .pending) (h : Receipt c.shared id status) : Receipt d.shared id status := by
  obtain ⟨txHash, hhash, hstatus⟩ := h
  exact ⟨txHash, hash_persists hinv hnext hhash,
    transaction_step (processStep_of_next hnext) hfinal hstatus⟩

/-! ### Debits and unlocks that are made -/

/-- A debit of the withdrawal is in the ledger or may still arrive. -/
def DebitMade (s : TransfersStore) (id : Uuid) : Prop :=
  (∃ t ∈ s.accounts.ledgerTransactions, t.type = .withdrawal ∧
    t.idempotencyKey = some (debitPrefix ++ id)) ∨ ∃ row, .debit row ∈ s.inFlight ∧ row.id = id

/-- An unlock of the withdrawal is in the ledger or may still arrive. -/
def RefundMade (s : TransfersStore) (id : Uuid) : Prop :=
  (∃ t ∈ s.accounts.ledgerTransactions, ∃ row, row.id = id ∧ Records (.refund row) t) ∨
    ∃ row, .refund row ∈ s.inFlight ∧ row.id = id

/-- The process makes the call in this step. -/
def Makes (l : Process) (action : Action) (call : BalanceCall) : Prop :=
  l.nextCall = some call ∧ ∃ delivery, action = .call delivery

theorem inFlight_made {call : BalanceCall} (h : ProcessStep s l action s' l')
    (hcall : call ∈ s'.inFlight) : call ∈ s.inFlight ∨ Makes l action call :=
  (inFlight_step h hcall).imp_right fun hmakes => ⟨hmakes.1, _, hmakes.2⟩

theorem effective_made {call : BalanceCall} (h : Effective s l action call) :
    call ∈ s.inFlight ∨ Makes l action call := by
  rcases h.2 with ⟨rfl, hcall⟩ | ⟨-, hflight⟩
  · exact Or.inr ⟨hcall, _, rfl⟩
  · exact Or.inl hflight

theorem debitMade_step (hdb : WellFormed s.accounts) (hallowed : Undebited action)
    (h : ProcessStep s l action s' l') (hmade : DebitMade s' id) :
    DebitMade s id ∨ ∃ row, Makes l action (.debit row) ∧ row.id = id := by
  have hcalled (row : WithdrawalRequest) (hid : row.id = id)
      (hcall : .debit row ∈ s.inFlight ∨ Makes l action (.debit row)) :
      DebitMade s id ∨ ∃ row, Makes l action (.debit row) ∧ row.id = id :=
    hcall.imp (fun hflight => Or.inr ⟨row, hflight, hid⟩) fun hmakes => ⟨row, hmakes, hid⟩
  rcases hmade with ⟨t, ht, htype, hkey⟩ | ⟨row, hflight, hid⟩
  · rcases debit_step hdb hallowed h ht htype hkey with hold | ⟨made, heffective, -, hid⟩
    · exact Or.inl (Or.inl ⟨t, hold, htype, hkey⟩)
    · exact hcalled made hid (effective_made heffective)
  · exact hcalled row hid (inFlight_made h hflight)

theorem refundMade_step (hdb : WellFormed s.accounts) (hallowed : Undebited action)
    (h : ProcessStep s l action s' l') (hmade : RefundMade s' id) :
    RefundMade s id ∨ ∃ row, Makes l action (.refund row) ∧ row.id = id := by
  have hcalled (row : WithdrawalRequest) (hid : row.id = id)
      (hcall : .refund row ∈ s.inFlight ∨ Makes l action (.refund row)) :
      RefundMade s id ∨ ∃ row, Makes l action (.refund row) ∧ row.id = id :=
    hcall.imp (fun hflight => Or.inr ⟨row, hflight, hid⟩) fun hmakes => ⟨row, hmakes, hid⟩
  rcases hmade with ⟨t, ht, row, hid, hrecords⟩ | ⟨row, hflight, hid⟩
  · rcases refund_step hdb hallowed h ht hrecords with hold | ⟨made, heffective, -, hmade⟩
    · exact Or.inl (Or.inl ⟨t, hold, row, hid, hrecords⟩)
    · exact hcalled made (hmade.trans hid) (effective_made heffective)
  · exact hcalled row hid (inFlight_made h hflight)

/-! ### Who will debit, and who may still unlock -/

/-- The row that the process is about to debit, or has debited. -/
def debiting : Process → Option WithdrawalRequest
  | .finalizing row (.debiting _) _ => some row
  | .finalizing row (.completing _) _ => some row
  | _ => none

/-- The row for which the process has not called the accounts service yet. -/
def undecided : Process → Option WithdrawalRequest
  | .executing row _ => some row
  | .finalizing row (.unlocking _) _ => some row
  | _ => none

theorem inHand_of_debiting (h : debiting l = some row) : row ∈ inHand l := by
  unfold debiting at h
  split at h <;> cases h <;> exact List.mem_cons_self

theorem inHand_of_undecided (h : undecided l = some row) : row ∈ inHand l := by
  unfold undecided at h
  split at h <;> cases h <;> exact List.mem_cons_self

theorem debiting_of_nextCall (h : l.nextCall = some (.debit row)) : debiting l = some row := by
  unfold Process.nextCall at h
  split at h <;> cases h
  rfl

theorem undecided_of_nextCall (h : l.nextCall = some (.refund row)) :
    undecided l = some row := by
  unfold Process.nextCall at h
  split at h <;> cases h
  rfl

/-- A process is about to debit a row after its transaction has succeeded. -/
theorem debiting_step (h : WorkStep s l action db' l') (hrow : debiting l' = some row) :
    debiting l = some row ∨ ∃ txHash, (row.id, txHash) ∈ tracked l ∧
      (findTransaction s txHash).map ChainTransaction.status = some .success := by
  have hresume (rest : List WithdrawalRequest) : debiting (resume rest) ≠ some row := by
    cases rest <;> exact (Option.some_ne_none _).symm
  have hnone (hhand : inHand l' = []) : row ∉ inHand l' := hhand ▸ List.not_mem_nil
  cases h with
  | bystander _ hl' => exact absurd (inHand_of_debiting hrow) (hnone hl')
  | inserted _ hl' => exact absurd (inHand_of_debiting hrow) (hnone hl')
  | received hstatus =>
    cases hrow
    exact Or.inr ⟨_, List.mem_singleton_self _, hstatus⟩
  | debited => exact Or.inl hrow
  | succeeded htx hstatus =>
    cases hrow
    refine Or.inr ⟨_, List.mem_filterMap.mpr ⟨_, List.mem_cons_self, ?_⟩, hstatus⟩
    rw [htx, Option.map_some]
  | recorded hl' =>
    rcases hl' with rfl | ⟨reason, rfl⟩ <;> cases hrow
  | recovered => exact absurd hrow (hresume _)
  | undebited => exact absurd hrow (hresume _)
  | completed => exact absurd hrow (hresume _)
  | failed => exact absurd hrow (hresume _)
  | uncompleted => exact absurd hrow (hresume _)
  | unfailed => exact absurd hrow (hresume _)
  | skipped => exact absurd hrow (hresume _)
  | _ => cases hrow

/-- A process may unlock a row that it has picked, or whose transaction is reverted. -/
theorem undecided_step (h : WorkStep s l action db' l') (hrow : undecided l' = some row) :
    (undecided l = some row ∧ l.nextCall = none) ∨ statusOf s.db row.id = some .pending ∨
      ∃ txHash, (row.id, txHash) ∈ tracked l ∧
        (findTransaction s txHash).map ChainTransaction.status = some .reverted := by
  have hresume (rest : List WithdrawalRequest) : undecided (resume rest) ≠ some row := by
    cases rest <;> exact (Option.some_ne_none _).symm
  have hnone (hhand : inHand l' = []) : row ∉ inHand l' := hhand ▸ List.not_mem_nil
  cases h with
  | bystander _ hl' => exact absurd (inHand_of_undecided hrow) (hnone hl')
  | inserted _ hl' => exact absurd (inHand_of_undecided hrow) (hnone hl')
  | @picked key pending hfind hpending =>
    cases hrow
    obtain rfl := (lookup_mem hfind).2
    refine Or.inr (Or.inl ?_)
    change (s.db.findWithdrawalById pending.id).map _ = _
    rw [hfind, Option.map_some, hpending]
  | broadcast => exact Or.inl ⟨hrow, rfl⟩
  | recorded hl' =>
    rcases hl' with rfl | ⟨reason, rfl⟩ <;> exact Or.inl ⟨hrow, rfl⟩
  | gaveUp => exact Or.inl ⟨hrow, rfl⟩
  | reverted htx hstatus =>
    cases hrow
    refine Or.inr (Or.inr ⟨_, List.mem_filterMap.mpr ⟨_, List.mem_cons_self, ?_⟩, hstatus⟩)
    rw [htx, Option.map_some]
  | recovered => exact absurd hrow (hresume _)
  | undebited => exact absurd hrow (hresume _)
  | completed => exact absurd hrow (hresume _)
  | failed => exact absurd hrow (hresume _)
  | uncompleted => exact absurd hrow (hresume _)
  | unfailed => exact absurd hrow (hresume _)
  | skipped => exact absurd hrow (hresume _)
  | _ => cases hrow

/-- An unlock call leads to the record of the failure, whatever becomes of the call. -/
theorem failing_of_refund (h : WorkStep s l action db' l') (hmakes : Makes l action (.refund row)) :
    ending l' = some (row, .failed) := by
  obtain ⟨hcall, delivery, rfl⟩ := hmakes
  unfold Process.nextCall at hcall
  split at hcall <;> cases hcall
  cases h with
  | bystander hl => exact absurd hl (List.cons_ne_nil _ _)
  | inserted hl => exact absurd hl (List.cons_ne_nil _ _)
  | unlocked => rfl

/-- The process drops a row whose failure it was about to record. -/
def GivesUp (l : Process) (action : Option Action) (row : WithdrawalRequest) : Prop :=
  ending l = some (row, .failed) ∧ (action = none ∨ ∃ message, action = some (.abort message))

/-- A process that is about to record a failure records it or gives up. -/
theorem failing_cases (h : WorkStep s l action db' l') (hending : ending l = some (row, .failed)) :
    statusOf db' row.id = (statusOf s.db row.id).map (fun _ => .failed) ∨
      (GivesUp l (some action) row ∧ db' = s.db ∧ inHand l = row :: inHand l') := by
  have hl := hending
  unfold ending at hl
  split at hl <;> cases hl
  cases h with
  | bystander hl => exact absurd hl (List.cons_ne_nil _ _)
  | inserted hl => exact absurd hl (List.cons_ne_nil _ _)
  | failed =>
    refine Or.inl ?_
    change statusOf (s.db.updateWithdrawal row.id _) row.id = _
    rw [statusOf_update (keepsRequest_fail _).id, if_pos rfl, statusOf, Option.map_map]
    rfl
  | unfailed => exact Or.inr ⟨⟨hending, Or.inr ⟨_, rfl⟩⟩, rfl, by rw [inHand_resume]; rfl⟩

/-! ### Withdrawals that nobody will debit -/

/-- The withdrawal has failed or is about to, its transaction is reverted, or it is left in
processing without one. -/
inductive Closed (c : WithdrawalsConfig) (id : Uuid) : Prop
  | failed (hstatus : statusOf c.shared.db id = some .failed)
  | failing (p : ℕ) (row : WithdrawalRequest) (hending : ending (c.procs p) = some (row, .failed))
      (hid : row.id = id)
  | reverted (hreceipt : Receipt c.shared id .reverted)
  | stranded (hstatus : statusOf c.shared.db id = some .processing)
      (hhash : hashOf c.shared.db id = none) (hhands : ∀ p, ∀ row ∈ inHand (c.procs p), row.id ≠ id)

/-- A failure is given up only when the transaction is reverted, or was never recorded. -/
def GivesUpReverted (c : WithdrawalsConfig) (e : CrashEvent) : Prop :=
  ∀ row, GivesUp (c.procs e.proc) e.action row →
    hashOf c.shared.db row.id = none ∨ Receipt c.shared row.id .reverted

theorem closed_step (hinv : Owned c) (hguard : GivesUpReverted c ⟨p, some a⟩)
    (hnext : withdrawalsSystem.next c ⟨p, a⟩ = some d) (h : Closed c id) : Closed d id := by
  cases h with
  | failed hstatus => exact .failed (final_step hinv hnext (Or.inr rfl) hstatus)
  | failing q row hending hid =>
    subst hid
    by_cases hq : q = p
    · subst hq
      have hrow := inHand_of_ending hending
      rcases failing_cases (workStep_of_next hnext) hending with hfailed | ⟨hgives, hdb, hhands⟩
      · refine .failed ?_
        rw [hfailed, hinv.processing q row hrow, Option.map_some]
      · rcases hguard row hgives with hnone | hreverted
        · refine .stranded ?_ ?_ fun r other hother hid => ?_
          · rw [hdb, hinv.processing q row hrow]
          · rw [hdb, hnone]
          · obtain rfl : r = q := by
              by_contra hr
              rw [System.next_procs_of_ne hnext hr] at hother
              exact hr (hinv.apart r q other row hother hrow hid)
            have hnodup := hinv.nodup r
            rw [hhands, List.map_cons, List.nodup_cons] at hnodup
            exact hnodup.1 (hid ▸ List.mem_map_of_mem hother)
        · exact .reverted (receipt_step hinv hnext TransactionStatus.noConfusion hreverted)
    · exact .failing q row (by rwa [System.next_procs_of_ne hnext hq]) rfl
  | reverted hreceipt =>
    exact .reverted (receipt_step hinv hnext TransactionStatus.noConfusion hreceipt)
  | stranded hstatus hhash hhands =>
    refine .stranded ?_ ?_ fun q row hrow hid => ?_
    · cases status_step (workStep_of_next hnext) id with
      | same hsame => rw [hsame, hstatus]
      | created hnone =>
        rw [hstatus] at hnone
        cases hnone
      | picked _ _ _ _ hpending =>
        rw [hstatus] at hpending
        cases hpending
      | ended worked _ hending _ hid => exact absurd hid (hhands p worked (inHand_of_ending hending))
    · rcases hash_unchanged hinv hnext id with hsame | ⟨-, row, hrow, hid, -⟩
      · rw [hsame, hhash]
      · exact absurd hid (hhands p row hrow)
    · subst hid
      rcases hand_cases hnext hrow with hold | ⟨-, hpending, -⟩ | ⟨-, -, -, hselected⟩
      · exact hhands q row hold rfl
      · rw [hstatus] at hpending
        cases hpending
      · obtain ⟨-, txHash, -, hsome⟩ := selected_spec hinv.hands.rows hselected
        rw [hhash] at hsome
        cases hsome

/-- A process that gives up leaves the withdrawal closed. -/
theorem closed_stopped (hinv : Owned c) (hguard : GivesUpReverted c ⟨p, none⟩)
    (h : Closed c id) : Closed (stopped c p) id := by
  cases h with
  | failed hstatus => exact .failed hstatus
  | failing q row hending hid =>
    subst hid
    rcases stopped_procs c p q with ⟨rfl, -⟩ | ⟨-, hproc⟩
    · have hrow := inHand_of_ending hending
      rcases hguard row ⟨hending, Or.inl rfl⟩ with hnone | hreverted
      · refine .stranded (hinv.processing q row hrow) hnone fun r other hother hid => ?_
        obtain ⟨hne, hold⟩ := inHand_stopped hother
        exact hne (hinv.apart r q other row hold hrow hid)
      · exact .reverted hreverted
    · exact .failing q row (by rw [hproc]; exact hending) rfl
  | reverted hreceipt => exact .reverted hreceipt
  | stranded hstatus hhash hhands =>
    exact .stranded hstatus hhash fun q row hrow => hhands q row (inHand_stopped hrow).2

/-! ### The invariant -/

/-- A debit follows a successful transaction, an unlock closes the withdrawal, and no
withdrawal has both. -/
structure FinalityInvariant (c : WithdrawalsConfig) : Prop where
  owned : Owned c
  debits : ∀ id, DebitMade c.shared id → Receipt c.shared id .success
  debiting : ∀ p row, debiting (c.procs p) = some row → Receipt c.shared row.id .success
  undecided : ∀ p row, undecided (c.procs p) = some row → ¬DebitMade c.shared row.id
  refunds : ∀ id, RefundMade c.shared id → ¬DebitMade c.shared id ∧ Closed c id

theorem finalityInvariant_initial : FinalityInvariant initial where
  owned := owned_initial
  debits _ h := by
    rcases h with ⟨t, ht, -⟩ | ⟨row, hrow, -⟩
    · exact absurd ht List.not_mem_nil
    · exact absurd hrow List.not_mem_nil
  debiting _ _ h := (Option.some_ne_none _ h.symm).elim
  undecided _ _ h := (Option.some_ne_none _ h.symm).elim
  refunds _ h := by
    rcases h with ⟨t, ht, -⟩ | ⟨row, hrow, -⟩
    · exact absurd ht List.not_mem_nil
    · exact absurd hrow List.not_mem_nil

section Next

variable (hinv : FinalityInvariant c) (hallowed : Undebited a)
  (hnext : withdrawalsSystem.next c ⟨p, a⟩ = some d)

include hinv

theorem not_debitMade (h : hashOf c.shared.db id = none) : ¬DebitMade c.shared id := by
  intro hmade
  obtain ⟨txHash, hhash, -⟩ := hinv.debits id hmade
  rw [h] at hhash
  cases hhash

/-- A process about to debit a withdrawal does not find it closed. -/
theorem not_closed (hrow : debiting (c.procs p) = some row) : ¬Closed c row.id := by
  have hhand := inHand_of_debiting hrow
  have hprocessing := hinv.owned.processing p row hhand
  intro hclosed
  cases hclosed with
  | failed hstatus =>
    rw [hprocessing] at hstatus
    cases hstatus
  | failing q other hending hid =>
    obtain rfl : q = p :=
      hinv.owned.apart q p other row (inHand_of_ending hending) hhand hid
    unfold ending at hending
    split at hending
    · cases hending
    · next hl =>
      rw [hl] at hrow
      cases hrow
    · cases hending
  | reverted hreceipt => cases (hinv.debiting p row hrow).unique hreceipt
  | stranded _ _ hhands => exact hhands p row hhand rfl

include hallowed hnext

theorem debits_step (h : DebitMade d.shared id) : Receipt d.shared id .success := by
  refine receipt_step hinv.owned hnext TransactionStatus.noConfusion ?_
  rcases debitMade_step hinv.owned.hands.accounts hallowed (processStep_of_next hnext) h with
    hold | ⟨row, hmakes, rfl⟩
  · exact hinv.debits id hold
  · exact hinv.debiting p row (debiting_of_nextCall hmakes.1)

theorem undecided_next (hrow : undecided (d.procs q) = some row) : ¬DebitMade d.shared row.id := by
  intro hmade
  rcases debitMade_step hinv.owned.hands.accounts hallowed (processStep_of_next hnext) hmade with
    hold | ⟨other, hmakes, hid⟩
  · by_cases hq : q = p
    · subst hq
      rcases undecided_step (workStep_of_next hnext) hrow with
        ⟨hundecided, -⟩ | hpending | ⟨txHash, htracked, hreverted⟩
      · exact hinv.undecided q row hundecided hold
      · exact not_debitMade hinv (hinv.owned.fresh row.id hpending) hold
      · have hreceipt : Receipt c.shared row.id .reverted :=
          ⟨txHash, hinv.owned.tracked q row.id txHash htracked, hreverted⟩
        cases (hinv.debits row.id hold).unique hreceipt
    · rw [System.next_procs_of_ne hnext hq] at hrow
      exact hinv.undecided q row hrow hold
  · have hdebiting := debiting_of_nextCall hmakes.1
    have hother := inHand_of_debiting hdebiting
    by_cases hq : q = p
    · subst hq
      rcases undecided_step (workStep_of_next hnext) hrow with
        ⟨-, hnone⟩ | hpending | ⟨txHash, htracked, hreverted⟩
      · rw [hmakes.1] at hnone
        cases hnone
      · have hprocessing := hinv.owned.processing q other hother
        rw [hid, hpending] at hprocessing
        cases hprocessing
      · have hreceipt : Receipt c.shared row.id .reverted :=
          ⟨txHash, hinv.owned.tracked q row.id txHash htracked, hreverted⟩
        cases (hid ▸ hinv.debiting q other hdebiting).unique hreceipt
    · rw [System.next_procs_of_ne hnext hq] at hrow
      exact hq (hinv.owned.apart q p row other (inHand_of_undecided hrow) hother hid.symm)

theorem refunds_step (hguard : GivesUpReverted c ⟨p, some a⟩) (h : RefundMade d.shared id) :
    ¬DebitMade d.shared id ∧ Closed d id := by
  have hdb := hinv.owned.hands.accounts
  have hstep := processStep_of_next hnext
  rcases refundMade_step hdb hallowed hstep h with hold | ⟨row, hmakes, rfl⟩
  · obtain ⟨hnone, hclosed⟩ := hinv.refunds id hold
    refine ⟨fun hmade => ?_, closed_step hinv.owned hguard hnext hclosed⟩
    rcases debitMade_step hdb hallowed hstep hmade with hdebit | ⟨row, hmakes, rfl⟩
    · exact hnone hdebit
    · exact not_closed hinv (debiting_of_nextCall hmakes.1) hclosed
  · have hundecided := undecided_of_nextCall hmakes.1
    refine ⟨fun hmade => ?_,
      .failing p row (failing_of_refund (workStep_of_next hnext) hmakes) rfl⟩
    rcases debitMade_step hdb hallowed hstep hmade with hdebit | ⟨other, hother, -⟩
    · exact hinv.undecided p row hundecided hdebit
    · have hcall := hother.1
      rw [hmakes.1] at hcall
      cases hcall

theorem finalityInvariant_step (hunowned : RecoversUnowned c ⟨p, some a⟩)
    (hguard : GivesUpReverted c ⟨p, some a⟩) : FinalityInvariant d where
  owned := owned_step hinv.owned hnext hunowned
  debits _ := debits_step hinv hallowed hnext
  debiting q row hrow := by
    refine receipt_step hinv.owned hnext TransactionStatus.noConfusion ?_
    by_cases hq : q = p
    · subst hq
      rcases debiting_step (workStep_of_next hnext) hrow with hold | ⟨txHash, htracked, hsuccess⟩
      · exact hinv.debiting q row hold
      · exact ⟨txHash, hinv.owned.tracked q row.id txHash htracked, hsuccess⟩
    · rw [System.next_procs_of_ne hnext hq] at hrow
      exact hinv.debiting q row hrow
  undecided _ _ := undecided_next hinv hallowed hnext
  refunds _ := refunds_step hinv hallowed hnext hguard

end Next

theorem FinalityInvariant.stopped (hinv : FinalityInvariant c)
    (hguard : GivesUpReverted c ⟨p, none⟩) :
    FinalityInvariant (WithdrawalRecovery.stopped c p) where
  owned := hinv.owned.stopped p
  debits := hinv.debits
  debiting q row hrow := by
    rcases stopped_procs c p q with ⟨-, hproc⟩ | ⟨-, hproc⟩
    · rw [hproc] at hrow
      cases hrow
    · rw [hproc] at hrow
      exact hinv.debiting q row hrow
  undecided q row hrow := by
    rcases stopped_procs c p q with ⟨-, hproc⟩ | ⟨-, hproc⟩
    · rw [hproc] at hrow
      cases hrow
    · rw [hproc] at hrow
      exact hinv.undecided q row hrow
  refunds id h := ⟨(hinv.refunds id h).1, closed_stopped hinv.owned hguard (hinv.refunds id h).2⟩

theorem finalityInvariant_next (hinv : FinalityInvariant c) (hunowned : RecoversUnowned c e)
    (hguard : GivesUpReverted c e) (hnext : crashingSystem.next c e = some d) :
    FinalityInvariant d := by
  obtain ⟨p, action⟩ := e
  rcases crashing_next hnext with ⟨a, rfl, hallowed, hnext⟩ | ⟨rfl, rfl⟩
  · exact finalityInvariant_step hinv hallowed hnext hunowned hguard
  · exact hinv.stopped hguard

/-! ### Runs -/

/-- The row is in the table with the same status. -/
def KeepsStatus (db : TransfersDb) (row : WithdrawalRequest) : Prop :=
  ∃ row' ∈ db.withdrawals, row'.id = row.id ∧ row'.status = row.status

/-- The debits and the unlocks of the withdrawal in the ledger. -/
def settlements (accounts : AccountsDb) (row : WithdrawalRequest) : List LedgerTransaction :=
  accounts.ledgerTransactions.filter fun t => Records (.debit row) t ∨ Records (.refund row) t

theorem FinalityInvariant.settlements_le (hinv : FinalityInvariant c) (row : WithdrawalRequest) :
    (settlements c.shared.accounts row).length ≤ 1 := by
  have hdb := hinv.owned.hands.accounts
  by_cases hrefund : RefundMade c.shared row.id
  · refine hdb.length_filter_le_one (k := refundPrefix ++ row.idempotencyKey) fun t ht hrecords => ?_
    rcases hrecords with hdebit | hrefunded
    · exact absurd (Or.inl ⟨t, ht, hdebit.1, hdebit.2.1⟩) (hinv.refunds row.id hrefund).1
    · exact hrefunded.2.1
  · refine hdb.length_filter_le_one (k := debitPrefix ++ row.id) fun t ht hrecords => ?_
    rcases hrecords with hdebit | hrefunded
    · exact hdebit.2.1
    · exact absurd (Or.inl ⟨t, ht, row, rfl, hrefunded⟩) hrefund

/-- A recovery pass begins only while nobody has a row in hand that it selects, and a failure
is given up only when the transaction is reverted or was never recorded. -/
def EndsInOneHand (c : WithdrawalsConfig) (e : CrashEvent) : Prop :=
  RecoversUnowned c e ∧ GivesUpReverted c e

theorem finalityInvariant_of_run {guard : WithdrawalsConfig → CrashEvent → Prop}
    (hguard : ∀ c e, guard c e → EndsInOneHand c e) (h : crashingSystem.Run guard c es d)
    (hinv : FinalityInvariant c) : FinalityInvariant d :=
  h.invariant hinv fun _ _ _ hinv hg hnext =>
    finalityInvariant_next hinv (hguard _ _ hg).1 (hguard _ _ hg).2 hnext

theorem statusOf_persists (h : crashingSystem.Run EndsInOneHand c es d)
    (hinv : FinalityInvariant c) {final : WithdrawalStatus}
    (hfinal : final = .completed ∨ final = .failed)
    (hstatus : statusOf c.shared.db id = some final) : statusOf d.shared.db id = some final := by
  have hboth : FinalityInvariant d ∧ statusOf d.shared.db id = some final :=
    System.Run.invariant
      (I := fun c => FinalityInvariant c ∧ statusOf c.shared.db id = some final) h
      ⟨hinv, hstatus⟩ fun c e d hc hg hnext => by
        refine ⟨finalityInvariant_next hc.1 hg.1 hg.2 hnext, ?_⟩
        rcases crashing_next hnext with ⟨a, -, -, hnext⟩ | ⟨-, rfl⟩
        · exact final_step hc.1.owned hnext hfinal hc.2
        · exact hc.2
  exact hboth.2

/-- In every run under the condition a final withdrawal keeps its status however the run goes
on, and the outbox has one event of it, with that status; no withdrawal has more than one of
its debit and its unlock. -/
theorem final_once (h : crashingSystem.Run EndsInOneHand initial es c)
    (h' : crashingSystem.Run EndsInOneHand c fs d) : ∀ row ∈ c.shared.db.withdrawals,
      (row.status = .completed ∨ row.status = .failed →
        KeepsStatus d.shared.db row ∧
          reports c.shared.db row.id = [row.status] ∧ reports d.shared.db row.id = [row.status]) ∧
      (settlements c.shared.accounts row).length ≤ 1 := by
  have hinv : FinalityInvariant c :=
    finalityInvariant_of_run (fun _ _ h => h) h finalityInvariant_initial
  have hinv' : FinalityInvariant d := finalityInvariant_of_run (fun _ _ h => h) h' hinv
  intro row hrow
  refine ⟨fun hfinal => ?_, hinv.settlements_le row⟩
  have hstatus := statusOf_of_mem hinv.owned.hands.rows hrow
  have hlater := statusOf_persists h' hinv hfinal hstatus
  have hreports : finalReports (some row.status) = [row.status] := by
    rcases hfinal with hfinal | hfinal <;> rw [hfinal] <;> rfl
  obtain ⟨row', hfind, hsame⟩ := Option.map_eq_some_iff.mp hlater
  exact ⟨⟨row', (lookup_mem hfind).1, (lookup_mem hfind).2, hsame⟩,
    by rw [hinv.owned.reported, hstatus, hreports],
    by rw [hinv'.owned.reported, hlater, hreports]⟩

/-! ### Recovery while a receipt is awaited -/

/-- A step that meets the condition, where the processes from `n` on have nothing in hand. -/
def endsInOneHand (n : ℕ)
    (t : System.Transition TransfersStore Process (Option Action)) : Bool :=
  match t.event.action, ending (t.before.procs t.event.proc) with
  | some .recoverStuckProcessingWithdrawals, _ =>
    (List.range n).all fun p => (inHand (t.before.procs p)).all fun held =>
      t.before.shared.db.findProcessingWithdrawalsWithTxHash.all fun row => row.id ≠ held.id
  | none, some (_, .failed) => false
  | some (.abort _), some (_, .failed) => false
  | _, _ => true

theorem endsInOneHand_spec {n : ℕ}
    {t : System.Transition TransfersStore Process (Option Action)}
    (hidle : ∀ p, n ≤ p → inHand (t.before.procs p) = []) (h : endsInOneHand n t = true) :
    EndsInOneHand t.before t.event := by
  refine ⟨fun haction p held hheld row hrow => ?_, fun row hgives => ?_⟩
  · rw [endsInOneHand, haction] at h
    have hp : p < n := by
      by_contra hp
      rw [hidle p (Nat.not_lt.mp hp)] at hheld
      exact absurd hheld List.not_mem_nil
    have hheldAll := List.all_eq_true.mp (List.all_eq_true.mp h p (List.mem_range.mpr hp)) held hheld
    exact of_decide_eq_true (List.all_eq_true.mp hheldAll row hrow)
  · obtain ⟨hending, haction | ⟨message, haction⟩⟩ := hgives
    · rw [endsInOneHand, haction, hending] at h
      cases h
    · rw [endsInOneHand, haction, hending] at h
      cases h

theorem run_of_endsInOneHand {n : ℕ} (h : crashingSystem.exec initial es = some c)
    (hprocs : es.all (fun e => e.proc < n) = true)
    (hall : (crashingSystem.transitions initial es).all (endsInOneHand n) = true) :
    crashingSystem.Run EndsInOneHand initial es c := by
  refine .of_transitions h fun t ht => endsInOneHand_spec (fun p hp => ?_)
    (List.all_eq_true.mp hall t ht)
  rw [System.transitions_procs_of_le h hprocs hp ht]
  rfl

/-- The processor has broadcast the payout and recorded its transaction, which succeeds. -/
def paidOut : List CrashEvent :=
  uncrashed (deposited :: requested 1 2 oneEther "w" ++
    [⟨2, .broadcast (.sent "0x1")⟩, ⟨2, .statement⟩, ⟨0, .mine "0x1" true⟩])

def recovery : List CrashEvent :=
  uncrashed [⟨3, .recoverStuckProcessingWithdrawals⟩, ⟨3, .statement⟩, ⟨3, .call .answered⟩,
    ⟨3, .statement⟩]

/-- The processor crashes before it reads the receipt, and a recovery pass completes the
withdrawal. -/
def crashAndRecovery : List CrashEvent := paidOut ++ [⟨2, none⟩] ++ recovery

/-- A second instance recovers the withdrawal while the first one awaits the receipt, and
both complete it. -/
def recoveredByTwo : List CrashEvent :=
  paidOut ++ recovery ++ uncrashed [⟨2, .statement⟩, ⟨2, .call .answered⟩, ⟨2, .statement⟩]

def completedRow : WithdrawalRequest := (pickedRow.recordTx "0x1" 0).complete

theorem crashAndRecovery_executes :
    (crashingSystem.exec initial crashAndRecovery).map (fun c => c.shared.db.withdrawals) =
      some [completedRow] ∧
    (crashingSystem.transitions initial crashAndRecovery).all (endsInOneHand 4) = true := by
  decide +kernel

theorem final_once_crashAndRecovery :
    ∃ c, crashingSystem.exec initial crashAndRecovery = some c ∧
      reports c.shared.db "w" = [.completed] ∧
        (settlements c.shared.accounts completedRow).length ≤ 1 := by
  obtain ⟨c, hexec, hrows⟩ := Option.map_eq_some_iff.mp crashAndRecovery_executes.1
  have hrow : completedRow ∈ c.shared.db.withdrawals := by
    rw [hrows]
    exact List.mem_singleton_self _
  have honce := final_once
    (run_of_endsInOneHand (n := 4) hexec (by decide) crashAndRecovery_executes.2) (.nil c)
    completedRow hrow
  exact ⟨c, hexec, (honce.1 (Or.inl rfl)).2.1, honce.2⟩

theorem recoveredByTwo_executes :
    (crashingSystem.exec initial recoveredByTwo).map
      (fun c => (c.shared.db.withdrawals, reports c.shared.db "w")) =
      some ([completedRow], [.completed, .completed]) := by
  decide +kernel

/-- The outbox has two events of one withdrawal. -/
theorem not_final_once_recoveredByTwo : ¬∀ es fs c d, crashingSystem.exec initial es = some c →
    crashingSystem.exec c fs = some d → ∀ row ∈ c.shared.db.withdrawals,
      (row.status = .completed ∨ row.status = .failed →
        KeepsStatus d.shared.db row ∧
          reports c.shared.db row.id = [row.status] ∧ reports d.shared.db row.id = [row.status]) ∧
      (settlements c.shared.accounts row).length ≤ 1 := by
  intro h
  obtain ⟨c, hexec, hresult⟩ := Option.map_eq_some_iff.mp recoveredByTwo_executes
  obtain ⟨hrows, hreports⟩ := Prod.mk.inj hresult
  have hrow : completedRow ∈ c.shared.db.withdrawals := by
    rw [hrows]
    exact List.mem_singleton_self _
  have hone := ((h _ [] c c hexec rfl completedRow hrow).1 (Or.inl rfl)).2.1
  exact absurd (hreports.symm.trans hone) (by decide)

end EtherTrade.WithdrawalFinalityLaws
