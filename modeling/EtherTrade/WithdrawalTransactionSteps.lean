import EtherTrade.IdempotencyKeyIsolation
import EtherTrade.WithdrawalTransactions

/-!
# What a step of the withdrawals system can do

The steps by what they do to the shared store and to the request or payout that the
process is responsible for. From this: how rows, the ledger, the chain and the calls in
flight can change in one step.
-/

namespace EtherTrade.WithdrawalTransactionSteps

open KeyedRows AccountsSchema AccountsDbInvariants BalanceMutations BalanceMutationCorrectness
open SequentialRequests IdempotencyKeyIsolation WithdrawalsSchema WithdrawalTransactions
open InterleavedProcesses

variable {s s' : TransfersStore} {l l' : Process} {action : Action} {call : BalanceCall}
  {terms : WithdrawalTerms} {row : WithdrawalRequest} {rest : List WithdrawalRequest} {id : Uuid}

theorem relying_eq_some (h : l.relying = some terms) : l = .requesting terms .inserting := by
  unfold Process.relying at h
  split at h
  · cases h
    rfl
  · cases h

/-- The process goes on with what it had: it picks no row and relies on no lock. -/
structure Follows (l l' : Process) : Prop where
  relying : l'.relying = none
  picked : l'.picked = none
  locked : ∀ terms, l'.locked = some terms → l.relying = some terms
  dispatched : ∀ row ∈ l'.dispatched, row ∈ l.dispatched ∨ l.picked = some row

/-- The update of a row by its id keeps what was requested, and never makes it pending. -/
structure KeepsRequest (set : WithdrawalRequest → WithdrawalRequest) : Prop where
  id : ∀ row, (set row).id = row.id
  terms : ∀ row, (set row).toWithdrawalTerms = row.toWithdrawalTerms
  status : ∀ row, row.status ≠ .pending → (set row).status ≠ .pending

theorem keepsRequest_startProcessing : KeepsRequest WithdrawalRequest.startProcessing :=
  ⟨fun _ => rfl, fun _ => rfl, fun _ _ => WithdrawalStatus.noConfusion⟩

theorem keepsRequest_recordTx (txHash : String) (nonce : ℕ) :
    KeepsRequest fun row => row.recordTx txHash nonce :=
  ⟨fun _ => rfl, fun _ => rfl, fun _ h => h⟩

theorem keepsRequest_complete : KeepsRequest WithdrawalRequest.complete :=
  ⟨fun _ => rfl, fun _ => rfl, fun _ _ => WithdrawalStatus.noConfusion⟩

theorem keepsRequest_fail (errorMessage : String) :
    KeepsRequest fun row => row.fail errorMessage :=
  ⟨fun _ => rfl, fun _ => rfl, fun _ _ => WithdrawalStatus.noConfusion⟩

/-! ### The steps -/

/-- What a step does to the shared store, and what becomes of the process. -/
inductive ProcessStep (s : TransfersStore) : Process → Action → TransfersStore → Process → Prop
  | quiet {l l' : Process} {action : Action} (hfollows : Follows l l') :
      ProcessStep s l action s l'
  | recovered : ProcessStep s .idle .recoverStuckProcessingWithdrawals s
      (resume s.db.findProcessingWithdrawalsWithTxHash)
  | inserted {terms : WithdrawalTerms} {newId : Uuid} {l' : Process} {action : Action}
      (hscope : lookup WithdrawalRequest.scope s.db.withdrawals terms.scope = none)
      (hid : s.db.findWithdrawalById newId = none)
      (hfollows : Follows (.requesting terms .inserting) l') :
      ProcessStep s (.requesting terms .inserting) action
        (setDb s (s.db.insertWithdrawal (.create terms newId))) l'
  | picked {id : Uuid} {row : WithdrawalRequest} (hfind : s.db.findWithdrawalById id = some row)
      (hpending : row.status = .pending) :
      ProcessStep s .idle (.processNextWithdrawal id)
        (setDb s (s.db.updateWithdrawal id WithdrawalRequest.startProcessing))
        (.executing row.startProcessing .broadcasting)
  | submitted {row : WithdrawalRequest} {tx : ChainTransaction} {l' : Process} {action : Action}
      (hid : tx.withdrawalId = row.id) (hfollows : Follows (.executing row .broadcasting) l') :
      ProcessStep s (.executing row .broadcasting) action (submit s tx) l'
  | updated {row : WithdrawalRequest} {set : WithdrawalRequest → WithdrawalRequest}
      {outbox : List WithdrawalEvent} {l l' : Process} {action : Action}
      (hrow : row ∈ l.dispatched) (hset : KeepsRequest set) (hfollows : Follows l l') :
      ProcessStep s l action
        (setDb s ⟨(s.db.updateWithdrawal row.id set).withdrawals, outbox⟩) l'
  | answered {l : Process} {call : BalanceCall} (hcall : l.nextCall = some call) :
      ProcessStep s l (.call .answered) (perform s call) (l.afterCall (call.succeeds s.accounts))
  | unanswered {l : Process} {call : BalanceCall} (hcall : l.nextCall = some call) :
      ProcessStep s l (.call .unanswered) { s with inFlight := s.inFlight ++ [call] }
        (l.afterCall false)
  | arrived {call : BalanceCall} (hcall : call ∈ s.inFlight) :
      ProcessStep s .idle (.arrive call)
        { perform s call with inFlight := s.inFlight.erase call } .idle
  | mined {txHash : String} {succeeded : Bool} :
      ProcessStep s .idle (.mine txHash succeeded) (mineTransaction s txHash succeeded) .idle
  | accounts {request : Request} {accounts : AccountsDb} {answer : Option BalanceMutationStatus}
      (hforeign : Foreign request)
      (hstep : accountsMachine.step s.accounts request = some (accounts, answer)) :
      ProcessStep s .idle (.accounts request) { s with accounts } .idle

theorem createWithdrawalRequest_eq_some {stored : TransfersStore}
    (h : createWithdrawalRequest s row = some stored) :
    lookup WithdrawalRequest.scope s.db.withdrawals row.scope = none ∧
      s.db.findWithdrawalById row.id = none ∧ stored = setDb s (s.db.insertWithdrawal row) := by
  unfold createWithdrawalRequest at h
  split at h
  · cases h
  · next hnew =>
    simp only [Bool.or_eq_true, not_or, Option.not_isSome_iff_eq_none] at hnew
    cases h
    exact ⟨hnew.1, hnew.2, rfl⟩

private theorem requesting_cases {progress progress' : Requesting}
    (h : requestingStep s terms progress action = some (s', progress')) :
    ProcessStep s (.requesting terms progress) action s' (.requesting terms progress') := by
  unfold requestingStep at h
  split at h
  · split at h <;> cases h <;>
      exact .quiet ⟨rfl, rfl, by simp [Process.locked], by simp [Process.dispatched]⟩
  · cases h
    exact .quiet ⟨rfl, rfl, by simp [Process.locked], by simp [Process.dispatched]⟩
  · dsimp only at h
    split at h
    · next hcreate =>
      cases h
      obtain ⟨hscope, hid, rfl⟩ := createWithdrawalRequest_eq_some hcreate
      exact .inserted hscope hid ⟨rfl, rfl, by simp [Process.locked], by simp [Process.dispatched]⟩
    · cases h
      exact .quiet ⟨rfl, rfl, fun _ h => h, by simp [Process.dispatched]⟩
  · obtain ⟨stored, hcreate, heq⟩ := Option.map_eq_some_iff.mp h
    cases heq
    obtain ⟨hscope, hid, rfl⟩ := createWithdrawalRequest_eq_some hcreate
    exact .inserted hscope hid ⟨rfl, rfl, fun _ h => h, by simp [Process.dispatched]⟩
  · cases h
    exact .quiet ⟨rfl, rfl, fun _ h => h, by simp [Process.dispatched]⟩
  · cases h

/-- After its first step, the processor no longer picks: it works on the row it had. -/
private theorem follows_executing {progress : Executing} (hl' : l'.relying = none)
    (hpicked : l'.picked = none) (hlocked : l'.locked = none) (hrow : l'.dispatched = [row]) :
    Follows (.executing row progress) l' := by
  refine ⟨hl', hpicked, by simp [hlocked], ?_⟩
  rw [hrow]
  intro x hx
  obtain rfl := List.mem_singleton.mp hx
  cases progress
  · exact Or.inr rfl
  · exact Or.inl List.mem_cons_self
  · exact Or.inl List.mem_cons_self

private theorem executing_cases {progress : Executing}
    (h : executingStep s row progress action = some (s', l')) :
    ProcessStep s (.executing row progress) action s' l' := by
  unfold executingStep at h
  split at h
  · split at h <;> cases h
    exact .quiet (follows_executing rfl rfl rfl rfl)
  · split at h
    · cases h
    · cases h
      exact .quiet (follows_executing rfl rfl rfl rfl)
    · split at h <;> cases h
      exact .submitted rfl (follows_executing rfl rfl rfl rfl)
    · split at h <;> cases h
      exact .submitted rfl (follows_executing rfl rfl rfl rfl)
  · cases h
    exact .updated List.mem_cons_self (keepsRequest_recordTx _ _) (follows_executing rfl rfl rfl rfl)
  · cases h
    exact .updated List.mem_cons_self (keepsRequest_recordTx _ _) (follows_executing rfl rfl rfl rfl)
  · cases h
    exact .quiet (follows_executing rfl rfl rfl rfl)
  · split at h <;> cases h <;> exact .quiet (follows_executing rfl rfl rfl rfl)
  · cases h
    exact .quiet (follows_executing rfl rfl rfl rfl)
  · cases h

private theorem follows_resume (h : ∀ row ∈ rest, row ∈ l.dispatched) : Follows l (resume rest) :=
  ⟨resume_relying, resume_picked, by simp, fun row hrow => Or.inl (h row (by simpa using hrow))⟩

private theorem finalizing_cases {progress : Finalizing}
    (h : finalizingStep s row rest progress action = some (s', l')) :
    ProcessStep s (.finalizing row progress rest) action s' l' := by
  have hrest : ∀ x ∈ rest, x ∈ (Process.finalizing row progress rest).dispatched :=
    fun _ hx => List.mem_cons_of_mem _ hx
  unfold finalizingStep at h
  split at h
  · cases h
    exact .updated List.mem_cons_self keepsRequest_complete (follows_resume hrest)
  · cases h
    exact .updated List.mem_cons_self (keepsRequest_fail _) (follows_resume hrest)
  · cases h
    exact .quiet (follows_resume hrest)
  · cases h
    exact .quiet (follows_resume hrest)
  · cases h

private theorem recovering_cases (h : recoveringStep s rest action = some l') :
    ProcessStep s (.recovering rest) action s l' := by
  unfold recoveringStep at h
  split at h
  · next row rest =>
    have hrest : Follows (.recovering (row :: rest)) (resume rest) :=
      follows_resume fun _ hx => List.mem_cons_of_mem _ hx
    have hrow (progress : Finalizing) :
        Follows (.recovering (row :: rest)) (.finalizing row progress rest) :=
      ⟨rfl, rfl, by simp [Process.locked], fun _ hx => Or.inl hx⟩
    split at h
    · cases h
      exact .quiet hrest
    · split at h <;> cases h
      · exact .quiet (hrow _)
      · exact .quiet (hrow _)
      · exact .quiet hrest
  · cases h
    exact .quiet (follows_resume fun _ hx => List.mem_cons_of_mem _ hx)
  · cases h

private theorem idle_cases (h : idleStep s action = some (s', l')) :
    ProcessStep s .idle action s' l' := by
  have hterms (terms : WithdrawalTerms) (progress : Requesting)
      (hlocked : (Process.requesting terms progress).locked = none) :
      ProcessStep s .idle (.requestWithdrawal terms) s (.requesting terms progress) := by
    refine .quiet ⟨?_, rfl, by simp [hlocked], by simp [Process.dispatched]⟩
    cases progress <;> first | rfl | cases hlocked
  unfold idleStep at h
  split at h
  · split at h <;> cases h <;> exact hterms _ _ rfl
  · split at h
    · cases h
    · next hfind =>
      split at h <;> cases h
      next hpending => exact .picked hfind hpending
  · cases h
    exact .recovered
  · cases h
    exact .mined
  · split at h <;> cases h
    next hcall => exact .arrived hcall
  · split at h
    · next hforeign =>
      obtain ⟨⟨accounts, answer⟩, hstep, heq⟩ := Option.map_eq_some_iff.mp h
      cases heq
      exact .accounts hforeign hstep
    · cases h
  · cases h

theorem step_cases {p : ℕ} (h : step p s l action = some (s', l')) :
    ProcessStep s l action s' l' := by
  unfold step at h
  split at h
  · next delivery =>
    cases delivery with
    | answered =>
      obtain ⟨call, hcall, heq⟩ := Option.map_eq_some_iff.mp h
      cases heq
      exact .answered hcall
    | unanswered =>
      obtain ⟨call, hcall, heq⟩ := Option.map_eq_some_iff.mp h
      cases heq
      exact .unanswered hcall
  · exact idle_cases h
  · obtain ⟨⟨stored, progress⟩, hstep, heq⟩ := Option.map_eq_some_iff.mp h
    cases heq
    exact requesting_cases hstep
  · exact executing_cases h
  · exact finalizing_cases h
  · obtain ⟨process, hstep, heq⟩ := Option.map_eq_some_iff.mp h
    cases heq
    exact recovering_cases hstep
  · cases h

/-! ### What becomes of the process -/

/-- A balance call leads on to a reliance on its lock, or to nothing new. -/
theorem afterCall_spec {succeeded : Bool} (h : l.nextCall = some call) :
    (l.afterCall succeeded).picked = none ∧
      (∀ row ∈ (l.afterCall succeeded).dispatched, row ∈ l.dispatched) ∧
      ∀ terms, (l.afterCall succeeded).locked = some terms →
        l = .requesting terms .locking ∧ call = .lock terms ∧ succeeded = true := by
  unfold Process.nextCall at h
  split at h
  · cases h
    cases succeeded
    · exact ⟨rfl, by simp [Process.afterCall, Process.dispatched],
        by simp [Process.afterCall, Process.locked]⟩
    · refine ⟨rfl, by simp [Process.afterCall, Process.dispatched], fun terms hterms => ?_⟩
      cases hterms
      exact ⟨rfl, rfl, rfl⟩
  · cases h
    exact ⟨rfl, by simp [Process.afterCall, Process.dispatched],
      by simp [Process.afterCall, Process.locked]⟩
  · cases h
    cases succeeded
    · refine ⟨resume_picked, fun row hrow => ?_, fun terms hterms => ?_⟩
      · rw [Process.afterCall, if_neg Bool.false_ne_true, resume_dispatched] at hrow
        exact List.mem_cons_of_mem _ hrow
      · rw [Process.afterCall, if_neg Bool.false_ne_true, resume_locked] at hterms
        cases hterms
    · exact ⟨rfl, fun _ hx => hx, by simp [Process.afterCall, Process.locked]⟩
  · cases h
    exact ⟨rfl, fun _ hx => hx, by simp [Process.afterCall, Process.locked]⟩
  · cases h

theorem locked_of_relying (h : l.relying = some terms) : l.locked = some terms := by
  rw [relying_eq_some h]
  rfl

/-- A process reaches a lock by its lock call, and otherwise keeps the one it has. -/
theorem locked_step (h : ProcessStep s l action s' l') (hterms : l'.locked = some terms) :
    l.relying = some terms ∧ l'.relying = none ∨
    l = .requesting terms .locking ∧ action = .call .answered ∧ s' = perform s (.lock terms) ∧
      (BalanceCall.lock terms).succeeds s.accounts = true := by
  have hfollows (h : Follows l l') : l.relying = some terms ∧ l'.relying = none :=
    ⟨h.locked terms hterms, h.relying⟩
  cases h with
  | quiet h => exact Or.inl (hfollows h)
  | inserted _ _ h => exact Or.inl (hfollows h)
  | submitted _ h => exact Or.inl (hfollows h)
  | updated _ _ h => exact Or.inl (hfollows h)
  | answered hcall =>
    obtain ⟨hl, rfl, hsucceeds⟩ := (afterCall_spec hcall).2.2 terms hterms
    exact Or.inr ⟨hl, rfl, rfl, hsucceeds⟩
  | unanswered hcall => cases ((afterCall_spec hcall).2.2 terms hterms).2.2
  | recovered => rw [resume_locked] at hterms; cases hterms
  | picked => cases hterms
  | arrived => cases hterms
  | mined => cases hterms
  | accounts => cases hterms

/-- A row is picked while it is pending. -/
theorem picked_step (h : ProcessStep s l action s' l') (hrow : l'.picked = some row) :
    ∃ pending, s.db.findWithdrawalById pending.id = some pending ∧ pending.status = .pending ∧
      row = pending.startProcessing ∧ l = .idle ∧
      s' = setDb s (s.db.updateWithdrawal pending.id WithdrawalRequest.startProcessing) := by
  cases h with
  | quiet h => rw [h.picked] at hrow; cases hrow
  | inserted _ _ h => rw [h.picked] at hrow; cases hrow
  | submitted _ h => rw [h.picked] at hrow; cases hrow
  | updated _ _ h => rw [h.picked] at hrow; cases hrow
  | answered hcall => rw [(afterCall_spec hcall).1] at hrow; cases hrow
  | unanswered hcall => rw [(afterCall_spec hcall).1] at hrow; cases hrow
  | recovered => rw [resume_picked] at hrow; cases hrow
  | picked hfind hpending =>
    cases hrow
    obtain rfl := (lookup_mem hfind).2
    exact ⟨_, hfind, hpending, rfl, rfl, rfl⟩
  | arrived => cases hrow
  | mined => cases hrow
  | accounts => cases hrow

/-- A process works on a row it had, on the one it had picked, or on one that is recorded
with a transaction. -/
theorem dispatched_step (h : ProcessStep s l action s' l') (hrow : row ∈ l'.dispatched) :
    row ∈ l.dispatched ∨ (l.picked = some row ∧ l'.picked = none) ∨
      (row ∈ s.db.withdrawals ∧ row.txHash.isSome ∧ s' = s ∧ l'.picked = none) := by
  have hfollows (h : Follows l l') : row ∈ l.dispatched ∨ (l.picked = some row ∧ l'.picked = none) :=
    (h.dispatched row hrow).imp_right fun hpicked => ⟨hpicked, h.picked⟩
  cases h with
  | quiet h => exact (hfollows h).imp_right Or.inl
  | inserted _ _ h => exact (hfollows h).imp_right Or.inl
  | submitted _ h => exact (hfollows h).imp_right Or.inl
  | updated _ _ h => exact (hfollows h).imp_right Or.inl
  | answered hcall => exact Or.inl ((afterCall_spec hcall).2.1 row hrow)
  | unanswered hcall => exact Or.inl ((afterCall_spec hcall).2.1 row hrow)
  | recovered =>
    rw [resume_dispatched] at hrow
    obtain ⟨hmem, hstatus⟩ := List.mem_filter.mp hrow
    exact Or.inr (Or.inr ⟨hmem, (of_decide_eq_true hstatus).2, rfl, resume_picked⟩)
  | picked => cases hrow
  | arrived => cases hrow
  | mined => cases hrow
  | accounts => cases hrow

/-! ### Rows -/

/-- How the table can change: rows keep what was requested, and none goes back to pending.
A transaction is recorded for rows that a process works on. -/
structure Evolves (s s' : TransfersStore) (worked : List WithdrawalRequest) : Prop where
  persists : ∀ row ∈ s.db.withdrawals, ∃ row' ∈ s'.db.withdrawals, row'.id = row.id ∧
    row'.toWithdrawalTerms = row.toWithdrawalTerms ∧
      (row.status ≠ .pending → row'.status ≠ .pending)
  recorded : ∀ row' ∈ s'.db.withdrawals, row'.txHash.isSome →
    (∃ row ∈ s.db.withdrawals, row.id = row'.id ∧ row.txHash.isSome) ∨
      ∃ row ∈ worked, row.id = row'.id

theorem Evolves.of_eq {worked : List WithdrawalRequest}
    (h : s'.db.withdrawals = s.db.withdrawals) : Evolves s s' worked := by
  constructor
  · intro row hrow
    exact ⟨row, h ▸ hrow, rfl, rfl, id⟩
  · intro row hrow htx
    exact Or.inl ⟨row, h ▸ hrow, rfl, htx⟩

/-- The constraints of the table, and how an update by id keeps them. -/
structure UniqueRows (db : TransfersDb) : Prop where
  ids : KeyUnique WithdrawalRequest.id db.withdrawals
  scopes : KeyUnique WithdrawalRequest.scope db.withdrawals

theorem uniqueRows_update {db : TransfersDb} {set : WithdrawalRequest → WithdrawalRequest}
    (h : UniqueRows db) (hset : KeepsRequest set) : UniqueRows (db.updateWithdrawal id set) := by
  constructor
  · refine keyUnique_map h.ids fun row _ => ?_
    split
    · exact hset.id row
    · rfl
  · refine keyUnique_map h.scopes fun row _ => ?_
    split
    · exact congrArg WithdrawalTerms.scope (hset.terms row)
    · rfl

theorem persists_update {db : TransfersDb} {set : WithdrawalRequest → WithdrawalRequest}
    (hset : KeepsRequest set) (hrow : row ∈ db.withdrawals) :
    ∃ row' ∈ (db.updateWithdrawal id set).withdrawals, row'.id = row.id ∧
      row'.toWithdrawalTerms = row.toWithdrawalTerms ∧
        (row.status ≠ .pending → row'.status ≠ .pending) := by
  refine ⟨_, List.mem_map_of_mem hrow, ?_⟩
  split
  · exact ⟨hset.id row, hset.terms row, hset.status row⟩
  · exact ⟨rfl, rfl, fun h => h⟩

theorem rows_step (hunique : UniqueRows s.db) (h : ProcessStep s l action s' l') :
    UniqueRows s'.db ∧ Evolves s s' l.dispatched := by
  cases h with
  | inserted hscope hid =>
    refine ⟨⟨keyUnique_append_singleton hunique.ids hid,
      keyUnique_append_singleton hunique.scopes hscope⟩, ?_, ?_⟩
    · intro row hrow
      exact ⟨row, List.mem_append_left _ hrow, rfl, rfl, fun h => h⟩
    · intro row hrow htx
      rcases List.mem_append.mp hrow with hrow | hrow
      · exact Or.inl ⟨row, hrow, rfl, htx⟩
      · obtain rfl := List.mem_singleton.mp hrow
        cases htx
  | picked =>
    refine ⟨uniqueRows_update hunique keepsRequest_startProcessing,
      fun row hrow => persists_update keepsRequest_startProcessing hrow, ?_⟩
    intro row' hrow' htx
    obtain ⟨row, hrow, rfl⟩ := List.mem_map.mp hrow'
    refine Or.inl ⟨row, hrow, ?_⟩
    split at htx
    · next heq => rw [if_pos heq]; exact ⟨rfl, htx⟩
    · next hne => rw [if_neg hne]; exact ⟨rfl, htx⟩
  | @updated worked set outbox _ _ _ hworked hset =>
    have hunique' : UniqueRows (s.db.updateWithdrawal worked.id set) :=
      uniqueRows_update hunique hset
    refine ⟨⟨hunique'.ids, hunique'.scopes⟩, fun row hrow => persists_update hset hrow, ?_⟩
    intro row' hrow' htx
    obtain ⟨row, hrow, rfl⟩ := List.mem_map.mp hrow'
    split at htx
    · next heq =>
      rw [if_pos heq]
      exact Or.inr ⟨worked, hworked, by rw [hset.id, heq]⟩
    · next hne =>
      rw [if_neg hne]
      exact Or.inl ⟨row, hrow, rfl, htx⟩
  | _ => exact ⟨hunique, .of_eq rfl⟩

/-- A row of the table was there before with the same terms, or its call has just stored
it. -/
theorem terms_step {row' : WithdrawalRequest} (h : ProcessStep s l action s' l')
    (hrow' : row' ∈ s'.db.withdrawals) :
    (∃ row ∈ s.db.withdrawals, row.id = row'.id ∧
      row.toWithdrawalTerms = row'.toWithdrawalTerms) ∨
      l.relying = some row'.toWithdrawalTerms := by
  have hupdate {db : TransfersDb} {set : WithdrawalRequest → WithdrawalRequest} {id : Uuid}
      (hset : KeepsRequest set) (hrow' : row' ∈ (db.updateWithdrawal id set).withdrawals) :
      ∃ row ∈ db.withdrawals, row.id = row'.id ∧
        row.toWithdrawalTerms = row'.toWithdrawalTerms := by
    obtain ⟨row, hrow, rfl⟩ := List.mem_map.mp hrow'
    refine ⟨row, hrow, ?_⟩
    split
    · exact ⟨(hset.id row).symm, (hset.terms row).symm⟩
    · exact ⟨rfl, rfl⟩
  cases h with
  | inserted =>
    rcases List.mem_append.mp hrow' with hrow' | hrow'
    · exact Or.inl ⟨row', hrow', rfl, rfl⟩
    · obtain rfl := List.mem_singleton.mp hrow'
      exact Or.inr rfl
  | picked => exact Or.inl (hupdate keepsRequest_startProcessing hrow')
  | updated _ hset => exact Or.inl (hupdate hset hrow')
  | _ => exact Or.inl ⟨row', hrow', rfl, rfl⟩

/-! ### The chain and the calls in flight -/

/-- A transaction keeps its withdrawal and its final status; a new one pays the row that
the process had picked. -/
theorem chain_step {tx' : ChainTransaction} (h : ProcessStep s l action s' l')
    (htx' : tx' ∈ s'.chain) :
    (∃ tx ∈ s.chain, tx.withdrawalId = tx'.withdrawalId ∧ (tx.status ≠ .pending → tx' = tx)) ∨
      ∃ row, l.picked = some row ∧ l'.picked = none ∧ tx'.withdrawalId = row.id := by
  cases h with
  | submitted hid hfollows =>
    rcases List.mem_append.mp htx' with htx' | htx'
    · exact Or.inl ⟨tx', htx', rfl, fun _ => rfl⟩
    · obtain rfl := List.mem_singleton.mp htx'
      exact Or.inr ⟨_, rfl, hfollows.picked, hid⟩
  | mined =>
    obtain ⟨tx, htx, rfl⟩ := List.mem_map.mp htx'
    refine Or.inl ⟨tx, htx, ?_⟩
    split
    · next hpending => exact ⟨rfl, fun hstatus => absurd hpending.2 hstatus⟩
    · exact ⟨rfl, fun _ => rfl⟩
  | _ => exact Or.inl ⟨tx', htx', rfl, fun _ => rfl⟩

theorem inFlight_step (h : ProcessStep s l action s' l') (hcall : call ∈ s'.inFlight) :
    call ∈ s.inFlight ∨ l.nextCall = some call ∧ action = .call .unanswered := by
  cases h with
  | unanswered hnext =>
    rcases List.mem_append.mp hcall with hcall | hcall
    · exact Or.inl hcall
    · obtain rfl := List.mem_singleton.mp hcall
      exact Or.inr ⟨hnext, rfl⟩
  | arrived => exact Or.inl (List.mem_of_mem_erase hcall)
  | _ => exact Or.inl hcall

theorem nextCall_refund (h : l.nextCall = some (.refund row)) : row ∈ l.dispatched := by
  unfold Process.nextCall at h
  split at h <;> cases h
  exact List.mem_cons_self

theorem nextCall_compensate (h : l.nextCall = some (.compensate terms)) :
    l.locked = some terms := by
  unfold Process.nextCall at h
  split at h <;> cases h
  rfl

/-! ### The ledger -/

/-- The step makes the call move a balance: it is answered or arrives, and it is no replay. -/
def Effective (s : TransfersStore) (l : Process) (action : Action) (call : BalanceCall) : Prop :=
  call.takesEffect s.accounts = true ∧
    (action = .call .answered ∧ l.nextCall = some call ∨
      action = .arrive call ∧ call ∈ s.inFlight)

/-- The row that a call writes to the ledger. -/
def Entry (call : BalanceCall) (t : LedgerTransaction) : Prop :=
  ∃ account, t = call.operation.mutation.ledgerTransaction call.params account

/-- A row that neither locks nor unlocks under a key of a withdrawal. -/
def Unrelated (t : LedgerTransaction) : Prop :=
  t.type = .lock ∨ t.type = .unlock →
    ∀ key, t.idempotencyKey = some key → ¬IsWithdrawalKey key

namespace Entry

variable {t : LedgerTransaction}

theorem type (h : Entry call t) : t.type = call.operation.mutation.expectedType := by
  obtain ⟨account, rfl⟩ := h
  rfl

theorem userId (h : Entry call t) : t.userId = call.terms.userId := by
  obtain ⟨account, rfl⟩ := h
  rfl

theorem currency (h : Entry call t) : t.currency = call.terms.currency := by
  obtain ⟨account, rfl⟩ := h
  rfl

theorem amount (h : Entry call t) : t.amount = call.terms.amount.units := by
  obtain ⟨account, rfl⟩ := h
  rfl

theorem key (h : Entry call t) : t.idempotencyKey = some call.idempotencyKey := by
  obtain ⟨account, rfl⟩ := h
  rfl

end Entry

theorem run_cases (call : BalanceCall) {accounts : AccountsDb} (hdb : WellFormed accounts) :
    (call.takesEffect accounts = false ∧ (call.run accounts).1 = accounts) ∨
    (call.takesEffect accounts = true ∧ WellFormed (call.run accounts).1 ∧
      accounts.findLedgerByIdempotencyKey call.idempotencyKey = none ∧
      ∃ t, Entry call t ∧
        (call.run accounts).1.ledgerTransactions = accounts.ledgerTransactions ++ [t]) := by
  have hrun : mutateBalance call.operation.mutation "" call.params accounts =
      ((call.run accounts).1, (call.run accounts).2) := rfl
  rcases mutateBalance_cases hrun with
    ⟨hsame, hresult⟩ | ⟨account, prepared, hkey, hprepared, hdb', hresult⟩
  · refine Or.inl ⟨?_, hsame⟩
    unfold BalanceCall.takesEffect
    split
    · next account h => exact absurd h (hresult account)
    · rfl
  · refine Or.inr ⟨by rw [BalanceCall.takesEffect, hresult], ?_, hkey,
      _, ⟨call.operation.mutation.updatedAccount call.params account, rfl⟩, ?_⟩
    · rw [hdb']
      exact wellFormed_commit hkey hprepared hdb
    · rw [hdb']
      exact congrArg (· ++ _) hprepared.ledgerTransactions_eq

/-- A success is a change of the balance, or a replay of a row with the same replay data. -/
theorem succeeds_cases {accounts : AccountsDb} (hdb : WellFormed accounts)
    (h : call.succeeds accounts = true) : call.takesEffect accounts = true ∨
      ∃ t, accounts.findLedgerByIdempotencyKey call.idempotencyKey = some t ∧ replayData t =
        (call.terms.amount.units, call.terms.currency, call.operation.mutation.expectedType) := by
  unfold BalanceCall.succeeds at h
  split at h
  · next hresult => exact Or.inl (by rw [BalanceCall.takesEffect, hresult])
  · next hresult =>
    have hreplay : (mutateBalance call.operation.mutation "" call.params accounts).2.map status =
        some .idempotentReplay := congrArg (Option.map status) hresult
    obtain ⟨-, t, ht, hdata⟩ := mutateBalance_replay hreplay hdb
    exact Or.inr ⟨t, ht, hdata⟩
  · cases h

/-- The ledger only grows: by the row of a call that takes effect, or by unrelated rows. -/
theorem ledger_step (hdb : WellFormed s.accounts) (h : ProcessStep s l action s' l') :
    WellFormed s'.accounts ∧
      ∃ ts, s'.accounts.ledgerTransactions = s.accounts.ledgerTransactions ++ ts ∧
        ∀ t ∈ ts, Unrelated t ∨ ∃ call, Effective s l action call ∧ Entry call t := by
  have hperform (call : BalanceCall) (heffective : call.takesEffect s.accounts = true →
      Effective s l action call) : WellFormed (perform s call).accounts ∧
      ∃ ts, (perform s call).accounts.ledgerTransactions = s.accounts.ledgerTransactions ++ ts ∧
        ∀ t ∈ ts, Unrelated t ∨ ∃ call, Effective s l action call ∧ Entry call t := by
    rcases run_cases call hdb with ⟨-, hsame⟩ | ⟨heffect, hdb', -, t, ht, hledger⟩
    · exact ⟨by rwa [perform, hsame], [], by simp [perform, hsame], by simp⟩
    · refine ⟨hdb', [t], hledger, fun u hu => ?_⟩
      obtain rfl := List.mem_singleton.mp hu
      exact Or.inr ⟨call, heffective heffect, ht⟩
  cases h with
  | answered hcall => exact hperform _ fun heffect => ⟨heffect, Or.inl ⟨rfl, hcall⟩⟩
  | arrived hcall => exact hperform _ fun heffect => ⟨heffect, Or.inr ⟨rfl, hcall⟩⟩
  | accounts hforeign hstep =>
    obtain ⟨hdb', ts, hledger, hts⟩ := accountsMachine_ledger hdb hstep
    refine ⟨hdb', ts, hledger, fun t ht => Or.inl fun htype key hkey => ?_⟩
    obtain ⟨op, newId, params, account, rfl, -, rfl⟩ := hts t ht key hkey
    cases hkey
    have hop : op = .lock ∨ op = .unlock :=
      htype.imp (fun h => expectedType_injective h) fun h => expectedType_injective h
    exact hforeign hop
  | _ => exact ⟨hdb, [], (List.append_nil _).symm, by simp⟩

/-! ### Unlocks -/

theorem append_injective {keyPrefix key key' : String} (h : keyPrefix ++ key = keyPrefix ++ key') :
    key = key' := by
  have hlist := congrArg String.toList h
  rw [String.toList_append, String.toList_append] at hlist
  exact String.toList_inj.mp (List.append_cancel_left hlist)

theorem isWithdrawalKey_append {keyPrefix : String} (h : "withdraw".toList <+: keyPrefix.toList)
    (key : String) : IsWithdrawalKey (keyPrefix ++ key) := by
  rw [IsWithdrawalKey, String.toList_append]
  exact h.trans (List.prefix_append _ _)

theorem compensationPrefix_ne_refundPrefix (key key' : String) :
    compensationPrefix ++ key ≠ refundPrefix ++ key' := by
  intro h
  have hlist := congrArg String.toList h
  rw [String.toList_append, String.toList_append] at hlist
  exact absurd (congrArg (fun cs => cs[8]?) hlist) (by simp [compensationPrefix, refundPrefix])

/-- An unlock of the user under the key, made for a request with this scope. -/
def Unlocked (keyPrefix : String) (s : TransfersStore) (scope : Uuid × String) : Prop :=
  ∃ t ∈ s.accounts.ledgerTransactions, t.type = .unlock ∧ t.userId = scope.1 ∧
    t.idempotencyKey = some (keyPrefix ++ scope.2)

/-- The compensating unlock of the request has taken effect. -/
abbrev Compensated := Unlocked compensationPrefix

/-- The unlock of a failed withdrawal has taken effect. -/
abbrev Refunded := Unlocked refundPrefix

/-- An unlock under a withdrawal key is that of a call which takes effect. -/
private theorem unlocked_step {keyPrefix : String} {scope : Uuid × String}
    (hstart : "withdraw".toList <+: keyPrefix.toList) (hdb : WellFormed s.accounts)
    (h : ProcessStep s l action s' l') (hscope : Unlocked keyPrefix s' scope) :
    Unlocked keyPrefix s scope ∨ ∃ call, Effective s l action call ∧
      call.operation = .unlock ∧ call.terms.userId = scope.1 ∧
        call.idempotencyKey = keyPrefix ++ scope.2 := by
  obtain ⟨-, ts, hledger, hts⟩ := ledger_step hdb h
  obtain ⟨t, ht, htype, huser, hkey⟩ := hscope
  rw [hledger] at ht
  rcases List.mem_append.mp ht with ht | ht
  · exact Or.inl ⟨t, ht, htype, huser, hkey⟩
  · rcases hts t ht with hunrelated | ⟨call, heffective, hentry⟩
    · exact absurd (isWithdrawalKey_append hstart _) (hunrelated (Or.inr htype) _ hkey)
    · have hop : call.operation = .unlock :=
        expectedType_injective (hentry.type.symm.trans htype)
      exact Or.inr ⟨call, heffective, hop, hentry.userId.symm.trans huser,
        Option.some.inj (hentry.key.symm.trans hkey)⟩

theorem compensated_step {scope : Uuid × String} (hdb : WellFormed s.accounts)
    (h : ProcessStep s l action s' l') (hscope : Compensated s' scope) :
    Compensated s scope ∨
      ∃ terms, Effective s l action (.compensate terms) ∧ terms.scope = scope := by
  rcases unlocked_step (by decide) hdb h hscope with hold | ⟨call, heffective, hop, huser, hkey⟩
  · exact Or.inl hold
  · cases call with
    | lock => cases hop
    | compensate terms =>
      exact Or.inr ⟨terms, heffective, Prod.ext huser (append_injective hkey)⟩
    | debit => cases hop
    | refund => exact absurd hkey.symm (compensationPrefix_ne_refundPrefix _ _)

theorem refunded_step {scope : Uuid × String} (hdb : WellFormed s.accounts)
    (h : ProcessStep s l action s' l') (hscope : Refunded s' scope) :
    Refunded s scope ∨ ∃ row, Effective s l action (.refund row) ∧ row.scope = scope := by
  rcases unlocked_step (by decide) hdb h hscope with hold | ⟨call, heffective, hop, huser, hkey⟩
  · exact Or.inl hold
  · cases call with
    | lock => cases hop
    | compensate => exact absurd hkey (compensationPrefix_ne_refundPrefix _ _)
    | debit => cases hop
    | refund row => exact Or.inr ⟨row, heffective, Prod.ext huser (append_injective hkey)⟩

end EtherTrade.WithdrawalTransactionSteps
