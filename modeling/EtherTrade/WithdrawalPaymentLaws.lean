import EtherTrade.UnitConverter
import EtherTrade.WithdrawalEntryLaws
import EtherTrade.WithdrawalFinalityLaws

/-!
# What a completed withdrawal pays and what it costs

A completed withdrawal has one successful transaction, of the payout that was made of its row,
whatever fails on the way. Whether that payout is worth the amount that was locked and debited
for it is a question of the digits that the token has.
-/

namespace EtherTrade.WithdrawalPaymentLaws

open KeyedRows DecimalNumbers AccountsSchema AccountsDbInvariants BalanceMutations
open SequentialRequests WithdrawalsSchema WithdrawalTransactions WithdrawalTransactionSteps
open WithdrawalTransactionInvariants WithdrawalPayoutLaws WithdrawalRefundLaws
open WithdrawalRecovery WithdrawalEntries WithdrawalEntryLaws WithdrawalOwnership
open WithdrawalFinalityLaws InterleavedProcesses

variable {c d : WithdrawalsConfig} {e : CrashEvent} {es : List CrashEvent}
  {s s' : TransfersStore} {l l' : Process} {action a : Action} {id : Uuid}
  {row : WithdrawalRequest} {terms : WithdrawalTerms} {rest : List WithdrawalRequest}
  {tx : ChainTransaction} {txHash : String} {p q : ℕ}

/-! ### The chain -/

/-- The row and the transaction that the process has handed to the node and not recorded. -/
def sending : Process → Option (WithdrawalRequest × String)
  | .executing row (.recording txHash) => some (row, txHash)
  | _ => none

@[simp] theorem sending_resume : sending (resume rest) = none := by cases rest <;> rfl

/-- What a step does to the chain. -/
inductive ChainStep (s : TransfersStore) : Process → TransfersStore → Process → Prop
  | kept {l l' : Process} {s' : TransfersStore} (hchain : s'.chain = s.chain)
      (hsending : sending l' = none) : ChainStep s l s' l'
  | mined {txHash : String} {succeeded : Bool} :
      ChainStep s .idle (mineTransaction s txHash succeeded) .idle
  | submitted {row : WithdrawalRequest} {sent : Payout} {txHash : String} {l' : Process}
      (hpayout : payout row.toWithdrawalTerms = .ok sent)
      (hnew : findTransaction s txHash = none) (hpicked : l'.picked = none)
      (hsending : ∀ other otherHash, sending l' = some (other, otherHash) →
        other = row ∧ otherHash = txHash) :
      ChainStep s (.executing row .broadcasting) (submit s ⟨txHash, row.id, sent, .pending⟩) l'

private theorem requesting_chain {progress progress' : Requesting}
    (h : requestingStep s terms progress action = some (s', progress')) : s'.chain = s.chain := by
  have hstored {stored : TransfersStore} {created : WithdrawalRequest}
      (hcreate : createWithdrawalRequest s created = some stored) : stored.chain = s.chain := by
    obtain ⟨-, -, rfl⟩ := createWithdrawalRequest_eq_some hcreate
    rfl
  unfold requestingStep at h
  split at h
  · split at h <;> cases h <;> rfl
  · cases h
    rfl
  · dsimp only at h
    split at h
    · next hcreate =>
      cases h
      exact hstored hcreate
    · cases h
      rfl
  · obtain ⟨stored, hcreate, heq⟩ := Option.map_eq_some_iff.mp h
    cases heq
    exact hstored hcreate
  · cases h
    rfl
  · cases h

private theorem executing_chain {progress : Executing}
    (h : executingStep s row progress action = some (s', l')) :
    ChainStep s (.executing row progress) s' l' := by
  have hsubmitted {sent : Payout} {txHash : String} {s' : TransfersStore} {l l' : Process}
      (hpayout : payout row.toWithdrawalTerms = .ok sent) (hpicked : l'.picked = none)
      (hsending : ∀ other otherHash, sending l' = some (other, otherHash) →
        other = row ∧ otherHash = txHash)
      (h : (if (findTransaction s txHash).isSome then none
        else some (submit s ⟨txHash, row.id, sent, .pending⟩, l')) = some (s', l)) :
      ChainStep s (.executing row .broadcasting) s' l := by
    split at h
    · cases h
    · next hnew =>
      cases h
      exact .submitted hpayout (Option.not_isSome_iff_eq_none.mp hnew) hpicked hsending
  unfold executingStep at h
  split at h
  · split at h <;> cases h
    exact .kept rfl rfl
  · split at h
    · cases h
    · cases h
      exact .kept rfl rfl
    · next hpayout =>
      refine hsubmitted hpayout rfl (fun other otherHash hother => ?_) h
      cases hother
      exact ⟨rfl, rfl⟩
    · next hpayout =>
      exact hsubmitted hpayout rfl (fun _ _ hother => (Option.some_ne_none _ hother.symm).elim) h
  · cases h
    exact .kept rfl rfl
  · cases h
    exact .kept rfl rfl
  · cases h
    exact .kept rfl rfl
  · split at h <;> cases h <;> exact .kept rfl rfl
  · cases h
    exact .kept rfl rfl
  · cases h

private theorem finalizing_chain {progress : Finalizing}
    (h : finalizingStep s row rest progress action = some (s', l')) :
    ChainStep s (.finalizing row progress rest) s' l' := by
  unfold finalizingStep at h
  split at h <;> cases h <;> exact .kept rfl sending_resume

private theorem recovering_chain (h : recoveringStep s rest action = some l') :
    ChainStep s (.recovering rest) s l' := by
  unfold recoveringStep at h
  split at h
  · split at h
    · cases h
      exact .kept rfl sending_resume
    · split at h <;> cases h
      · exact .kept rfl rfl
      · exact .kept rfl rfl
      · exact .kept rfl sending_resume
  · cases h
    exact .kept rfl sending_resume
  · cases h

private theorem idle_chain (h : idleStep s action = some (s', l')) : ChainStep s .idle s' l' := by
  unfold idleStep at h
  split at h
  · split at h <;> cases h <;> exact .kept rfl rfl
  · split at h
    · cases h
    · split at h <;> cases h
      exact .kept rfl rfl
  · cases h
    exact .kept rfl sending_resume
  · cases h
    exact .mined
  · split at h <;> cases h
    exact .kept rfl rfl
  · split at h
    · obtain ⟨⟨accounts, answer⟩, -, heq⟩ := Option.map_eq_some_iff.mp h
      cases heq
      exact .kept rfl rfl
    · cases h
  · cases h

private theorem sending_afterCall {succeeded : Bool} {call : BalanceCall}
    (h : l.nextCall = some call) : sending (l.afterCall succeeded) = none := by
  unfold Process.nextCall at h
  split at h
  · rfl
  · rfl
  · cases succeeded
    · exact sending_resume
    · rfl
  · rfl
  · cases h

theorem chain_cases (h : step p s l action = some (s', l')) : ChainStep s l s' l' := by
  unfold step at h
  split at h
  · next delivery =>
    cases delivery with
    | answered =>
      obtain ⟨call, hcall, heq⟩ := Option.map_eq_some_iff.mp h
      cases heq
      exact .kept rfl (sending_afterCall hcall)
    | unanswered =>
      obtain ⟨call, hcall, heq⟩ := Option.map_eq_some_iff.mp h
      cases heq
      exact .kept rfl (sending_afterCall hcall)
  · exact idle_chain h
  · obtain ⟨⟨stored, progress⟩, hstep, heq⟩ := Option.map_eq_some_iff.mp h
    cases heq
    exact .kept (requesting_chain hstep) rfl
  · exact executing_chain h
  · exact finalizing_chain h
  · obtain ⟨process, hstep, heq⟩ := Option.map_eq_some_iff.mp h
    cases heq
    exact recovering_chain hstep
  · cases h

theorem chainStep_of_next (h : withdrawalsSystem.next c ⟨p, a⟩ = some d) :
    ChainStep c.shared (c.procs p) d.shared (d.procs p) := by
  obtain ⟨s, l, hs, rfl⟩ := System.next_eq_some.mp h
  simpa using chain_cases (p := p) hs

/-- The transaction is known to the node and pays the withdrawal. -/
def Sent (s : TransfersStore) (id : Uuid) (txHash : String) : Prop :=
  ∃ tx, findTransaction s txHash = some tx ∧ tx.withdrawalId = id

theorem Sent.step (h : Sent s id txHash) (hstep : ChainStep s l s' l') : Sent s' id txHash := by
  obtain ⟨tx, hfind, hid⟩ := h
  cases hstep with
  | kept hchain => exact ⟨tx, by rwa [findTransaction, hchain], hid⟩
  | @mined minedHash succeeded =>
    have hmap : findTransaction (mineTransaction s minedHash succeeded) txHash =
        (findTransaction s txHash).map fun tx =>
          if tx.hash = minedHash ∧ tx.status = .pending then tx.mine succeeded else tx :=
      lookup_map fun tx _ => by split <;> rfl
    rw [hfind, Option.map_some] at hmap
    refine ⟨_, hmap, ?_⟩
    split <;> exact hid
  | @submitted row sent newHash _ _ _ =>
    refine ⟨tx, ?_, hid⟩
    change lookup ChainTransaction.hash (s.chain ++ [_]) txHash = _
    rw [lookup_append_singleton, show lookup ChainTransaction.hash s.chain txHash = some tx
      from hfind, Option.some_or]

theorem Sent.paidOut (h : Sent s id txHash)
    (hstatus : (findTransaction s txHash).map ChainTransaction.status = some .success) :
    PaidOut s id := by
  obtain ⟨tx, hfind, hid⟩ := h
  rw [hfind, Option.map_some] at hstatus
  exact ⟨tx, (lookup_mem hfind).1, hid, Option.some.inj hstatus⟩

theorem PaidOut.step (h : PaidOut s id) (hstep : ChainStep s l s' l') : PaidOut s' id := by
  obtain ⟨tx, htx, hid, hsuccess⟩ := h
  cases hstep with
  | kept hchain => exact ⟨tx, hchain ▸ htx, hid, hsuccess⟩
  | mined =>
    refine ⟨tx, List.mem_map.mpr ⟨tx, htx, if_neg fun hpending => ?_⟩, hid, hsuccess⟩
    cases hsuccess.symm.trans hpending.2
  | submitted => exact ⟨tx, List.mem_append_left _ htx, hid, hsuccess⟩

/-- A process gets to record a transaction by handing it to the node. -/
theorem sent_of_sending (h : ChainStep s l s' l') (hsending : sending l' = some (row, txHash)) :
    Sent s' row.id txHash := by
  cases h with
  | kept _ hnone =>
    rw [hnone] at hsending
    cases hsending
  | mined => cases hsending
  | @submitted _ sent newHash _ _ hnew _ hrow =>
    obtain ⟨rfl, rfl⟩ := hrow _ _ hsending
    refine ⟨⟨txHash, row.id, sent, .pending⟩, ?_, rfl⟩
    change lookup ChainTransaction.hash (s.chain ++ [_]) txHash = _
    rw [lookup_append_singleton, show lookup ChainTransaction.hash s.chain txHash = none from hnew,
      Option.none_or, if_pos rfl]

/-- A payout is one that was submitted before, or it is made of the row that was picked. -/
theorem payout_cases (h : ChainStep s l s' l') (htx : tx ∈ s'.chain) :
    (∃ old ∈ s.chain, old.withdrawalId = tx.withdrawalId ∧ old.payout = tx.payout) ∨
      ∃ row, l.picked = some row ∧ row.id = tx.withdrawalId ∧
        payout row.toWithdrawalTerms = .ok tx.payout := by
  cases h with
  | kept hchain => exact Or.inl ⟨tx, hchain ▸ htx, rfl, rfl⟩
  | mined =>
    obtain ⟨old, hold, rfl⟩ := List.mem_map.mp htx
    refine Or.inl ⟨old, hold, ?_⟩
    split <;> exact ⟨rfl, rfl⟩
  | @submitted row _ _ _ hpayout =>
    rcases List.mem_append.mp htx with htx | htx
    · exact Or.inl ⟨tx, htx, rfl, rfl⟩
    · obtain rfl := List.mem_singleton.mp htx
      exact Or.inr ⟨row, rfl, rfl, hpayout⟩

/-- A withdrawal that is about to be paid has no transaction yet. -/
theorem paidOnce_step (hunique : KeyUnique ChainTransaction.withdrawalId s.chain)
    (hpicked : ∀ row, l.picked = some row → ∀ tx ∈ s.chain, tx.withdrawalId ≠ row.id)
    (h : ChainStep s l s' l') : KeyUnique ChainTransaction.withdrawalId s'.chain := by
  cases h with
  | kept hchain => exact hchain ▸ hunique
  | mined => exact keyUnique_map hunique fun tx _ => by split <;> rfl
  | submitted =>
    exact keyUnique_append_singleton hunique (lookup_eq_none.mpr (hpicked _ rfl))

/-! ### Locks -/

/-- The ledger has a lock under the key of the request, of its amount. -/
def LockMade (s : TransfersStore) (terms : WithdrawalTerms) : Prop :=
  ∃ t ∈ s.accounts.ledgerTransactions, t.type = .lock ∧
    t.idempotencyKey = some (lockPrefix ++ terms.idempotencyKey) ∧ t.amount = terms.amount.units

/-- A stored request, and a call about to store one, has its lock. -/
structure LocksMade (c : WithdrawalsConfig) : Prop where
  relying : ∀ p terms, (c.procs p).relying = some terms → LockMade c.shared terms
  stored : ∀ row ∈ c.shared.db.withdrawals, LockMade c.shared row.toWithdrawalTerms

theorem locksMade_step (hdb : WellFormed c.shared.accounts) (hinv : LocksMade c)
    (hnext : withdrawalsSystem.next c ⟨p, a⟩ = some d) : LocksMade d := by
  have hstep := processStep_of_next hnext
  have hkept {terms : WithdrawalTerms} (h : LockMade c.shared terms) : LockMade d.shared terms := by
    obtain ⟨t, ht, hlock⟩ := h
    exact ⟨t, ledger_persists hdb hstep ht, hlock⟩
  refine ⟨fun q terms hterms => ?_, fun row hrow => ?_⟩
  · by_cases hq : q = p
    · subst hq
      obtain ⟨-, -, hstore, hsucceeds⟩ := relying_step hnext hterms
      obtain ⟨t, ht, hkey, hdata, -⟩ := lock_succeeds hdb hsucceeds
      rw [hstore]
      exact ⟨t, ht, congrArg (fun data => data.2.2) hdata, hkey, congrArg Prod.fst hdata⟩
    · rw [System.next_procs_of_ne hnext hq] at hterms
      exact hkept (hinv.relying q terms hterms)
  · rcases terms_step hstep hrow with ⟨old, hmem, -, hterms⟩ | hterms
    · exact hterms ▸ hkept (hinv.stored old hmem)
    · exact hkept (hinv.relying _ _ hterms)

/-! ### The invariant -/

/-- Whoever debits or completes a withdrawal, or has completed it, has seen its transaction
succeed; every transaction pays out a stored row, and no row has two. -/
structure PaymentInvariant (c : WithdrawalsConfig) : Prop where
  payout : PayoutInvariant c
  hands : HandsInvariant c
  locks : LocksMade c
  paid : ∀ tx ∈ c.shared.chain, ∃ row, Stored c.shared row ∧ row.id = tx.withdrawalId ∧
    WithdrawalsSchema.payout row.toWithdrawalTerms = .ok tx.payout
  paidOnce : KeyUnique ChainTransaction.withdrawalId c.shared.chain
  sending : ∀ p row txHash, sending (c.procs p) = some (row, txHash) → Sent c.shared row.id txHash
  tracked : ∀ p id txHash, (id, txHash) ∈ tracked (c.procs p) → Sent c.shared id txHash
  recorded : ∀ id txHash, hashOf c.shared.db id = some txHash → Sent c.shared id txHash
  debiting : ∀ p row, debiting (c.procs p) = some row → PaidOut c.shared row.id
  completed : ∀ id, statusOf c.shared.db id = some .completed → PaidOut c.shared id

theorem paymentInvariant_initial : PaymentInvariant initial where
  payout := payoutInvariant_initial
  hands := handsInvariant_initial
  locks := ⟨fun _ _ h => (Option.some_ne_none _ h.symm).elim, fun _ h => absurd h List.not_mem_nil⟩
  paid _ h := absurd h List.not_mem_nil
  paidOnce := keyUnique_nil
  sending _ _ _ h := (Option.some_ne_none _ h.symm).elim
  tracked _ _ _ h := absurd h List.not_mem_nil
  recorded _ _ h := (Option.some_ne_none _ h.symm).elim
  debiting _ _ h := (Option.some_ne_none _ h.symm).elim
  completed _ h := (Option.some_ne_none _ h.symm).elim

section Next

variable (hinv : PaymentInvariant c) (hnext : withdrawalsSystem.next c ⟨p, a⟩ = some d)

include hinv hnext

theorem tracked_sent (h : (id, txHash) ∈ tracked (d.procs q))
    (hrecorded : ∀ id txHash, hashOf d.shared.db id = some txHash → Sent d.shared id txHash) :
    Sent d.shared id txHash := by
  by_cases hq : q = p
  · subst hq
    have hstored : ∀ row ∈ inHand (c.procs q), statusOf c.shared.db row.id ≠ none := by
      intro row hrow hnone
      obtain ⟨stored, hmem, hid, -⟩ := hinv.hands.stored q row hrow
      rw [← hid, statusOf_of_mem hinv.hands.rows hmem] at hnone
      cases hnone
    rcases tracked_step hinv.hands.rows hstored (workStep_of_next hnext) h with hold | hhash
    · exact (hinv.tracked q id txHash hold).step (chainStep_of_next hnext)
    · exact hrecorded id txHash hhash
  · rw [System.next_procs_of_ne hnext hq] at h
    exact (hinv.tracked q id txHash h).step (chainStep_of_next hnext)

theorem recorded_sent (h : hashOf d.shared.db id = some txHash) : Sent d.shared id txHash := by
  have hchain := chainStep_of_next hnext
  rcases hash_step (workStep_of_next hnext) id with hsame | ⟨row, sent, hl, -, hid, hhash⟩
  · exact (hinv.recorded id txHash (hsame ▸ h)).step hchain
  · rw [h] at hhash
    obtain ⟨-, -, rfl⟩ := Option.map_eq_some_iff.mp hhash.symm
    exact hid ▸ (hinv.sending p row sent (by rw [hl]; rfl)).step hchain

theorem debiting_paidOut (h : debiting (d.procs q) = some row) : PaidOut d.shared row.id := by
  have hchain := chainStep_of_next hnext
  by_cases hq : q = p
  · subst hq
    rcases debiting_step (workStep_of_next hnext) h with hold | ⟨txHash, htracked, hsuccess⟩
    · exact PaidOut.step (hinv.debiting q row hold) hchain
    · exact PaidOut.step ((hinv.tracked q row.id txHash htracked).paidOut hsuccess) hchain
  · rw [System.next_procs_of_ne hnext hq] at h
    exact PaidOut.step (hinv.debiting q row h) hchain

theorem completed_paidOut (h : statusOf d.shared.db id = some .completed) :
    PaidOut d.shared id := by
  refine PaidOut.step ?_ (chainStep_of_next hnext)
  cases status_step (workStep_of_next hnext) id with
  | same hsame => exact hinv.completed id (hsame ▸ h)
  | created _ hpending => cases hpending.symm.trans h
  | picked _ _ _ _ _ hprocessing => cases hprocessing.symm.trans h
  | ended row status hending _ hid hstatus =>
    rw [h] at hstatus
    obtain ⟨-, -, rfl⟩ := Option.map_eq_some_iff.mp hstatus.symm
    subst hid
    refine hinv.debiting p row ?_
    unfold ending at hending
    split at hending
    · next hl =>
      cases hending
      rw [hl]
      rfl
    · cases hending
    · cases hending

theorem paymentInvariant_step : PaymentInvariant d := by
  have hstep := processStep_of_next hnext
  have hchain := chainStep_of_next hnext
  obtain ⟨-, hevolves⟩ := rows_step hinv.hands.rows hstep
  refine
    { payout := payoutInvariant_next hinv.payout hnext
      hands := handsInvariant_step hinv.hands hnext
      locks := locksMade_step hinv.hands.accounts hinv.locks hnext
      paid := fun tx htx => ?_
      paidOnce := paidOnce_step hinv.paidOnce (fun row hrow tx htx hid => ?_) hchain
      sending := fun q row txHash hsending => ?_
      tracked := fun q id txHash htracked =>
        tracked_sent hinv hnext htracked fun _ _ => recorded_sent hinv hnext
      recorded := fun _ _ => recorded_sent hinv hnext
      debiting := fun _ _ => debiting_paidOut hinv hnext
      completed := fun _ => completed_paidOut hinv hnext }
  · rcases payout_cases hchain htx with ⟨old, hold, hid, hpayout⟩ | ⟨row, hpicked, hid, hpayout⟩
    · obtain ⟨row, hstored, hrow, hold⟩ := hinv.paid old hold
      exact ⟨row, hstored.step hevolves, hrow.trans hid, hpayout ▸ hold⟩
    · exact ⟨row, (hinv.payout.picked p row hpicked).1.step hevolves, hid, hpayout⟩
  · exact (hinv.payout.submitted tx htx).released p row hrow hid.symm
  · by_cases hq : q = p
    · subst hq
      exact sent_of_sending hchain hsending
    · rw [System.next_procs_of_ne hnext hq] at hsending
      exact (hinv.sending q row txHash hsending).step hchain

end Next

theorem PayoutInvariant.stopped (h : PayoutInvariant c) (p : ℕ) :
    PayoutInvariant (WithdrawalRecovery.stopped c p) := by
  have hpicked {q : ℕ} {row : WithdrawalRequest}
      (hrow : ((WithdrawalRecovery.stopped c p).procs q).picked = some row) :
      (c.procs q).picked = some row := by
    rcases stopped_procs c p q with ⟨-, hproc⟩ | ⟨-, hproc⟩
    · rw [hproc] at hrow
      cases hrow
    · rwa [hproc] at hrow
  have hdispatched {id : Uuid} (hid : Dispatched c id) :
      Dispatched (WithdrawalRecovery.stopped c p) id :=
    ⟨hid.taken, fun q row hrow => hid.released q row (hpicked hrow)⟩
  refine
    { accounts := h.accounts
      rows := h.rows
      picked := fun q row hrow => h.picked q row (hpicked hrow)
      pickedOnce := fun q r row other hrow hother => h.pickedOnce q r row other (hpicked hrow)
        (hpicked hother)
      dispatched := fun q row hrow => ?_
      recorded := fun row hrow htx => hdispatched (h.recorded row hrow htx)
      submitted := fun tx htx => hdispatched (h.submitted tx htx)
      refunding := fun row hcall => (h.refunding row hcall).imp_right hdispatched
      refunded := fun scope hscope => ?_ }
  · rcases stopped_procs c p q with ⟨-, hproc⟩ | ⟨-, hproc⟩
    · rw [hproc] at hrow
      exact absurd hrow List.not_mem_nil
    · rw [hproc] at hrow
      exact (h.dispatched q row hrow).imp_right hdispatched
  · obtain ⟨row, hrow, hsame, hid⟩ := h.refunded scope hscope
    exact ⟨row, hrow, hsame, hdispatched hid⟩

theorem PaymentInvariant.stopped (h : PaymentInvariant c) (p : ℕ) :
    PaymentInvariant (WithdrawalRecovery.stopped c p) := by
  refine
    { payout := PayoutInvariant.stopped h.payout p
      hands := h.hands.stopped p
      locks := ⟨fun q terms hterms => ?_, h.locks.stored⟩
      paid := h.paid
      paidOnce := h.paidOnce
      sending := fun q row txHash hsending => ?_
      tracked := fun q id txHash htracked => ?_
      recorded := h.recorded
      debiting := fun q row hrow => ?_
      completed := h.completed }
  all_goals rcases stopped_procs c p q with ⟨-, hproc⟩ | ⟨-, hproc⟩
  · rw [hproc] at hterms
    cases hterms
  · exact h.locks.relying q terms (hproc ▸ hterms)
  · rw [hproc] at hsending
    cases hsending
  · exact h.sending q row txHash (hproc ▸ hsending)
  · rw [hproc] at htracked
    exact absurd htracked List.not_mem_nil
  · exact h.tracked q id txHash (hproc ▸ htracked)
  · rw [hproc] at hrow
    cases hrow
  · exact h.debiting q row (hproc ▸ hrow)

theorem paymentInvariant_next (hinv : PaymentInvariant c)
    (hnext : crashingSystem.next c e = some d) : PaymentInvariant d := by
  rcases crashing_next hnext with ⟨a, -, -, hnext⟩ | ⟨-, rfl⟩
  · exact paymentInvariant_step hinv hnext
  · exact hinv.stopped e.proc

/-! ### Amounts -/

/-- The units of the token that the payout moves. -/
def value : Payout → ℤ
  | .ether _ value => value
  | .usdtTransfer _ value => value

def decimals : Payout → ℕ
  | .ether _ _ => nativeEthDecimals
  | .usdtTransfer _ _ => usdtDecimals

/-- The coins that the payout moves. -/
def coins (payout : Payout) : ℚ := value payout / 10 ^ decimals payout

def invalidAmount : String := "Amount must be a positive decimal number"

/-- `validateAmount`, on the number that the text reads as. -/
def validateAmount (amount : BigNumber) : Except String NumericText :=
  match amount with
  | .finite q => if q ≤ 0 then .error invalidAmount else .ok (BigNumber.finite q).toFixed
  | _ => .error invalidAmount

/-- Every positive amount of eight decimals is validated by both services. -/
theorem validateAmount_units (amount : Amount) :
    validateAmount (.finite (amount.units / scale)) = .ok (.digits 0 amount.units.toNat) ∧
      BalancesService.validateAmount (.digits 0 amount.units.toNat) = .ok amount := by
  have hpos : (0 : ℚ) < amount.units / scale :=
    div_pos (by exact_mod_cast amount.positive) scale_pos
  refine ⟨?_, ?_⟩
  · rw [validateAmount, if_neg (not_le.mpr hpos), toFixed_of_nonneg hpos.le, roundDown_units]
  · obtain ⟨units, hpositive⟩ := amount
    obtain ⟨n, rfl⟩ := Int.eq_succ_of_zero_lt hpositive
    rfl

/-- An amount that both validate is converted like the units it has. -/
theorem scale_of_validated {number : BigNumber} {text : NumericText} {amount : Amount}
    (h : validateAmount number = .ok text)
    (haccounts : BalancesService.validateAmount text = .ok amount) (tokenDecimals : ℕ) :
    UnitConverter.scalePlatformAmountToEvm text tokenDecimals =
      some (scalePlatformAmountToEvm amount tokenDecimals) := by
  have hunits : text = .digits 0 amount.units.toNat := by
    unfold BalancesService.validateAmount at haccounts
    split at haccounts
    · cases haccounts
      rfl
    · cases haccounts
  rw [hunits, UnitConverter.scalePlatformAmountToEvm_amount]

/-- The successful transactions that pay the withdrawal. -/
def transfers (s : TransfersStore) (id : Uuid) : List ChainTransaction :=
  s.chain.filter fun tx => tx.status = .success ∧ tx.withdrawalId = id

/-- One transfer pays the withdrawal, of more than nothing, and it is worth what was locked and
what was debited for it. -/
structure DebitedEqualsPaid (s : TransfersStore) (row : WithdrawalRequest)
    (tx : ChainTransaction) : Prop where
  paid : transfers s row.id = [tx]
  positive : 0 < value tx.payout
  locked : ∃ t ∈ s.accounts.ledgerTransactions, t.type = .lock ∧
    t.idempotencyKey = some (lockPrefix ++ row.idempotencyKey) ∧ coins tx.payout = t.amount / scale
  debited : ∃ t, s.accounts.ledgerTransactions.filter (fun t => Records (.debit row) t) = [t] ∧
    coins tx.payout = t.amount / scale

/-- The token has the digits that the amount needs. -/
def FitsToken (terms : WithdrawalTerms) : Prop :=
  terms.currency = .eth ∨ 10 ^ 2 ∣ terms.amount.units

/-- A payout is worth the amount just when the token has its digits. -/
theorem coins_eq_iff {sent : Payout} (h : payout terms = .ok sent) :
    coins sent = terms.amount.units / scale ↔ FitsToken terms := by
  unfold payout at h
  split at h
  · next hcurrency =>
    cases h
    refine iff_of_true ?_ (Or.inl hcurrency)
    have hvalue : scalePlatformAmountToEvm terms.amount nativeEthDecimals =
        terms.amount.units * 10 ^ 10 := by
      unfold scalePlatformAmountToEvm nativeEthDecimals
      omega
    rw [coins, value, decimals, hvalue, scale, nativeEthDecimals]
    push_cast
    field_simp
    norm_num
  · next hcurrency =>
    cases h
    have hvalue : scalePlatformAmountToEvm terms.amount usdtDecimals =
        terms.amount.units / 10 ^ 2 := by
      unfold scalePlatformAmountToEvm usdtDecimals
      omega
    have hcoins : (((terms.amount.units / 10 ^ 2 : ℤ) : ℚ) / 10 ^ 6 =
        (terms.amount.units : ℚ) / 10 ^ 8) ↔
          terms.amount.units / 10 ^ 2 * 10 ^ 2 = terms.amount.units := by
      rw [div_eq_div_iff (by norm_num) (by norm_num)]
      have hpow : (10 : ℚ) ^ 8 = 10 ^ 2 * 10 ^ 6 := by norm_num
      rw [hpow, ← mul_assoc, mul_left_inj' (by norm_num)]
      exact_mod_cast Iff.rfl
    rw [coins, value, decimals, hvalue, scale, usdtDecimals, hcoins, FitsToken, hcurrency]
    constructor
    · exact fun hexact => Or.inr ⟨_, (mul_comm _ _).trans hexact |>.symm⟩
    · rintro (hcurrency | hdvd)
      · cases hcurrency
      · exact Int.ediv_mul_cancel hdvd
  · cases h

theorem value_pos {sent : Payout} (h : coins sent = terms.amount.units / scale) :
    0 < value sent := by
  have hpositive : (0 : ℚ) < terms.amount.units / scale :=
    div_pos (by exact_mod_cast terms.amount.positive) scale_pos
  rw [← h, coins] at hpositive
  have hvalue : (0 : ℚ) < value sent := (div_pos_iff_of_pos_right (by positivity)).mp hpositive
  exact_mod_cast hvalue

/-! ### Runs -/

/-- The one transfer of a withdrawal that is paid out is made of its row. -/
theorem transfer_of_paidOut (hinv : PaymentInvariant c) (hrow : row ∈ c.shared.db.withdrawals)
    (hpaid : PaidOut c.shared row.id) :
    ∃ tx, transfers c.shared row.id = [tx] ∧ payout row.toWithdrawalTerms = .ok tx.payout := by
  obtain ⟨tx, htx, hid, hsuccess⟩ := hpaid
  refine ⟨tx, ?_, ?_⟩
  · have hown := filter_eq_of_lookup hinv.paidOnce ((lookup_eq_some hinv.paidOnce).mpr ⟨htx, hid⟩)
    simp only [transfers, Bool.decide_and, ← List.filter_filter, hown]
    exact List.filter_cons_of_pos (decide_eq_true hsuccess)
  · obtain ⟨made, ⟨stored, hmem, hsame, hterms⟩, hmade, hpayout⟩ := hinv.paid tx htx
    have heq : stored = row := hinv.hands.rows.ids.eq hmem hrow (hsame.trans (hmade.trans hid))
    rw [← heq, hterms]
    exact hpayout

/-- In every run, whatever fails, what a completed withdrawal has paid is worth what was locked
and debited for it just when its token has the digits of its amount. -/
theorem debitedEqualsPaid_iff (h : crashingSystem.exec initial es = some c) :
    ∀ row ∈ c.shared.db.withdrawals, row.status = .completed →
      ((∃ tx, DebitedEqualsPaid c.shared row tx) ↔ FitsToken row.toWithdrawalTerms) := by
  intro row hrow hcompleted
  have hinv : PaymentInvariant c := System.exec_invariant h paymentInvariant_initial
    fun _ _ _ hinv hnext => paymentInvariant_next hinv hnext
  have hrun : crashingSystem.Run (fun _ _ => True) initial es c :=
    .of_transitions h fun _ _ => trivial
  have hpaid := hinv.completed row.id
    ((statusOf_of_mem hinv.hands.rows hrow).trans (congrArg some hcompleted))
  obtain ⟨tx, htransfers, hpayout⟩ := transfer_of_paidOut hinv hrow hpaid
  obtain ⟨entry, hentry, hamount, -⟩ := completed_performedOnce hrun row hrow hcompleted
  constructor
  · rintro ⟨other, hother⟩
    obtain rfl : other = tx := List.singleton_injective (hother.paid.symm.trans htransfers)
    obtain ⟨t, ht, hcoins⟩ := hother.debited
    obtain rfl : t = entry := List.singleton_injective (ht.symm.trans hentry)
    exact (coins_eq_iff hpayout).mp (hamount ▸ hcoins)
  · intro hfits
    have hcoins := (coins_eq_iff hpayout).mpr hfits
    obtain ⟨t, ht, htype, hkey, hlocked⟩ := hinv.locks.stored row hrow
    exact ⟨tx, htransfers, value_pos hcoins, ⟨t, ht, htype, hkey, hlocked ▸ hcoins⟩,
      entry, hentry, hamount ▸ hcoins⟩

/-! ### A transfer of six decimals -/

/-- A withdrawal of USDT that is requested, paid out and completed. -/
def usdtWithdrawal (amount : Amount) : List CrashEvent :=
  uncrashed (⟨0, .accounts (.call .deposit "a" ⟨"u", .usdt, .coins 5, "faucet", none⟩)⟩ ::
    requested 1 2 { oneEther with currency := .usdt, amount } "w" ++
    [⟨2, .broadcast (.sent "0x1")⟩, ⟨2, .statement⟩, ⟨0, .mine "0x1" true⟩, ⟨2, .statement⟩,
      ⟨2, .call .answered⟩, ⟨2, .statement⟩])

def usdtRow (amount : Amount) : WithdrawalRequest :=
  let row := WithdrawalRequest.create { oneEther with currency := .usdt, amount } "w"
  (row.recordTx "0x1" 0).complete

/-- 1.00000099 coins. -/
def manyDigits : Amount := ⟨100000099, by decide⟩

theorem usdtWithdrawal_executes :
    (crashingSystem.exec initial (usdtWithdrawal (.coins 1))).map
      (fun c => c.shared.db.withdrawals) = some [usdtRow (.coins 1)] ∧
    (crashingSystem.exec initial (usdtWithdrawal manyDigits)).map (fun c =>
      (c.shared.db.withdrawals, (transfers c.shared "w").map fun tx => coins tx.payout,
        (c.shared.accounts.ledgerTransactions.filter fun t =>
          Records (.debit (usdtRow manyDigits)) t).map LedgerTransaction.amount)) =
      some ([usdtRow manyDigits], [1], [100000099]) := by
  decide +kernel

theorem debitedEqualsPaid_oneCoin : ∃ c, crashingSystem.exec initial (usdtWithdrawal (.coins 1)) =
    some c ∧ ∃ tx, DebitedEqualsPaid c.shared (usdtRow (.coins 1)) tx := by
  obtain ⟨c, hexec, hrows⟩ := Option.map_eq_some_iff.mp usdtWithdrawal_executes.1
  have hrow : usdtRow (.coins 1) ∈ c.shared.db.withdrawals := by
    rw [hrows]
    exact List.mem_singleton_self _
  exact ⟨c, hexec, (debitedEqualsPaid_iff hexec _ hrow rfl).mpr (Or.inr (by decide))⟩

/-- 1.00000099 coins are debited, and one is transferred. -/
theorem not_debitedEqualsPaid_manyDigits : ¬∀ es c, crashingSystem.exec initial es = some c →
    ∀ row ∈ c.shared.db.withdrawals, row.status = .completed →
      ∃ tx, DebitedEqualsPaid c.shared row tx := by
  intro h
  obtain ⟨c, hexec, hresult⟩ := Option.map_eq_some_iff.mp usdtWithdrawal_executes.2
  obtain ⟨hrows, hsums⟩ := Prod.mk.inj hresult
  obtain ⟨hmoved, hamount⟩ := Prod.mk.inj hsums
  have hrow : usdtRow manyDigits ∈ c.shared.db.withdrawals := by
    rw [hrows]
    exact List.mem_singleton_self _
  obtain ⟨tx, hpaid, -, -, t, ht, hcoins⟩ := h _ c hexec _ hrow rfl
  have hmoved : (transfers c.shared (usdtRow manyDigits).id).map (fun tx => coins tx.payout) =
    [1] := hmoved
  rw [hpaid] at hmoved
  rw [ht] at hamount
  have hone : coins tx.payout = 1 := List.singleton_injective hmoved
  have hunits : t.amount = 100000099 := List.singleton_injective hamount
  rw [hone, hunits, scale] at hcoins
  norm_num at hcoins

end EtherTrade.WithdrawalPaymentLaws
