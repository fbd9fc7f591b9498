import EtherTrade.WithdrawalRecovery

/-!
# One process for each withdrawal

When a recovery pass begins only while no other process has a row in hand that it selects,
each row is in the hand of one process at most, and is in processing as long as it is. It
then reaches one final status, with one event.
-/

namespace EtherTrade.WithdrawalOwnership

open KeyedRows AccountsSchema AccountsDbInvariants BalanceMutations SequentialRequests
open WithdrawalsSchema WithdrawalTransactions WithdrawalTransactionSteps
open WithdrawalTransactionInvariants WithdrawalRecovery InterleavedProcesses

variable {c d : WithdrawalsConfig} {e : CrashEvent} {s : TransfersStore} {l l' : Process}
  {action : Action} {a : Action} {id : Uuid} {row other : WithdrawalRequest} {db' : TransfersDb}
  {p q : ℕ} {txHash : String}

/-- A recovery pass begins only while nobody has a row in hand that it selects. -/
def RecoversUnowned (c : WithdrawalsConfig) (e : CrashEvent) : Prop :=
  e.action = some .recoverStuckProcessingWithdrawals → ∀ p, ∀ held ∈ inHand (c.procs p),
    ∀ row ∈ c.shared.db.findProcessingWithdrawalsWithTxHash, row.id ≠ held.id

/-- The events that a row with the status has. -/
def finalReports : Option WithdrawalStatus → List WithdrawalStatus
  | some .completed => [.completed]
  | some .failed => [.failed]
  | _ => []

/-- The transactions that a process takes to be recorded. -/
def tracked : Process → List (Uuid × String)
  | .executing row (.awaitingReceipt txHash) => [(row.id, txHash)]
  | .finalizing _ _ rest => rest.filterMap fun row => row.txHash.map fun txHash => (row.id, txHash)
  | .recovering rest => rest.filterMap fun row => row.txHash.map fun txHash => (row.id, txHash)
  | _ => []

/-- Each row in hand is in processing and in one hand only. -/
structure Owned (c : WithdrawalsConfig) : Prop where
  hands : HandsInvariant c
  processing : ∀ p, ∀ row ∈ inHand (c.procs p), statusOf c.shared.db row.id = some .processing
  apart : ∀ p q row other, row ∈ inHand (c.procs p) → other ∈ inHand (c.procs q) →
    row.id = other.id → p = q
  nodup : ∀ p, ((inHand (c.procs p)).map WithdrawalRequest.id).Nodup
  reported : ∀ id, reports c.shared.db id = finalReports (statusOf c.shared.db id)
  fresh : ∀ id, statusOf c.shared.db id = some .pending → hashOf c.shared.db id = none
  unrecorded : ∀ p row, unrecorded (c.procs p) = some row → hashOf c.shared.db row.id = none
  tracked : ∀ p id txHash, (id, txHash) ∈ tracked (c.procs p) →
    hashOf c.shared.db id = some txHash

theorem owned_initial : Owned initial where
  hands := handsInvariant_initial
  processing _ _ h := absurd h List.not_mem_nil
  apart _ _ _ _ h := absurd h List.not_mem_nil
  nodup _ := List.nodup_nil
  reported _ := rfl
  fresh _ h := (Option.some_ne_none _ h.symm).elim
  unrecorded _ _ h := (Option.some_ne_none _ h.symm).elim
  tracked _ _ _ h := absurd h List.not_mem_nil

theorem inHand_of_unrecorded (h : unrecorded l = some row) : row ∈ inHand l := by
  unfold unrecorded at h
  split at h <;> cases h <;> exact List.mem_cons_self

theorem tracked_resume {rest : List WithdrawalRequest} : tracked (resume rest) =
    rest.filterMap fun row => row.txHash.map fun txHash => (row.id, txHash) := by
  cases rest <;> rfl

theorem selected_spec (hunique : UniqueRows s.db)
    (h : row ∈ s.db.findProcessingWithdrawalsWithTxHash) :
    statusOf s.db row.id = some .processing ∧ ∃ txHash, row.txHash = some txHash ∧
      hashOf s.db row.id = some txHash := by
  obtain ⟨hmem, hselected⟩ := List.mem_filter.mp h
  obtain ⟨hstatus, hhash⟩ := of_decide_eq_true hselected
  obtain ⟨txHash, htx⟩ := Option.isSome_iff_exists.mp hhash
  refine ⟨(statusOf_of_mem hunique hmem).trans (congrArg some hstatus), txHash, htx, ?_⟩
  rw [hashOf, find_of_mem hunique hmem]
  exact htx

theorem inHand_of_tracked (h : (id, txHash) ∈ tracked l) :
    ∃ row, row ∈ inHand l := by
  cases l with
  | executing row progress => exact ⟨row, List.mem_cons_self⟩
  | finalizing row progress rest => exact ⟨row, List.mem_cons_self⟩
  | recovering rest =>
    obtain ⟨row, hrow, -⟩ := List.mem_filterMap.mp h
    exact ⟨row, hrow⟩
  | _ => exact absurd h List.not_mem_nil

/-- A process gets a row whose transaction it has not recorded by picking it. -/
theorem unrecorded_step (h : WorkStep s l action db' l') (hrow : unrecorded l' = some row) :
    unrecorded l = some row ∨ statusOf s.db row.id = some .pending := by
  have hresume (rest : List WithdrawalRequest) : unrecorded (resume rest) ≠ some row := by
    rw [unrecorded_resume]
    exact (Option.some_ne_none _).symm
  have hnone (hhand : inHand l' = []) : row ∉ inHand l' := hhand ▸ List.not_mem_nil
  cases h with
  | bystander _ hl' => exact absurd (inHand_of_unrecorded hrow) (hnone hl')
  | inserted _ hl' => exact absurd (inHand_of_unrecorded hrow) (hnone hl')
  | @picked key pending hfind hpending =>
    obtain rfl : pending.startProcessing = row := Option.some.inj hrow
    obtain rfl := (lookup_mem hfind).2
    refine Or.inr ?_
    change (s.db.findWithdrawalById pending.id).map _ = _
    rw [hfind, Option.map_some, hpending]
  | recovered => exact absurd hrow (hresume _)
  | broadcast => exact Or.inl hrow
  | recorded hl' =>
    rcases hl' with rfl | ⟨reason, rfl⟩ <;> cases hrow
  | undebited => exact absurd hrow (hresume _)
  | completed => exact absurd hrow (hresume _)
  | failed => exact absurd hrow (hresume _)
  | uncompleted => exact absurd hrow (hresume _)
  | unfailed => exact absurd hrow (hresume _)
  | skipped => exact absurd hrow (hresume _)
  | _ => cases hrow

/-- A process takes a transaction to be recorded when it has recorded it or read it. -/
theorem tracked_step (hunique : UniqueRows s.db)
    (hstored : ∀ row ∈ inHand l, statusOf s.db row.id ≠ none)
    (h : WorkStep s l action db' l') (hmem : (id, txHash) ∈ tracked l') :
    (id, txHash) ∈ tracked l ∨ hashOf db' id = some txHash := by
  have hnone (hl' : inHand l' = []) : (id, txHash) ∈ tracked l ∨ hashOf db' id = some txHash := by
    obtain ⟨row, hrow⟩ := inHand_of_tracked hmem
    rw [hl'] at hrow
    exact absurd hrow List.not_mem_nil
  have hkept {rest : List WithdrawalRequest} {worked : WithdrawalRequest}
      {progress : Finalizing} (h : (id, txHash) ∈ tracked (resume rest)) :
      (id, txHash) ∈ tracked (.finalizing worked progress rest) := by
    rwa [tracked_resume] at h
  have hlater {rest : List WithdrawalRequest} {worked : WithdrawalRequest}
      (h : (id, txHash) ∈ rest.filterMap fun row =>
        row.txHash.map fun txHash => (row.id, txHash)) :
      (id, txHash) ∈ tracked (.recovering (worked :: rest)) := by
    obtain ⟨row, hrow, htx⟩ := List.mem_filterMap.mp h
    exact List.mem_filterMap.mpr ⟨row, List.mem_cons_of_mem _ hrow, htx⟩
  cases h with
  | bystander _ hl' => exact hnone hl'
  | inserted _ hl' => exact hnone hl'
  | recovered =>
    rw [tracked_resume] at hmem
    obtain ⟨row, hrow, htx⟩ := List.mem_filterMap.mp hmem
    obtain ⟨-, recordedHash, hrecorded, hhash⟩ := selected_spec hunique hrow
    rw [hrecorded] at htx
    cases htx
    exact Or.inr hhash
  | @recorded worked recordedHash _ _ hl' =>
    rcases hl' with rfl | ⟨reason, rfl⟩
    · cases List.mem_singleton.mp hmem
      refine Or.inr ?_
      obtain ⟨stored, hfind⟩ := Option.ne_none_iff_exists'.mp fun hnone =>
        hstored worked List.mem_cons_self (Option.map_eq_none_iff.mpr hnone)
      rw [hashOf_update (keepsRequest_recordTx txHash 0).id, if_pos rfl, hfind]
      rfl
    · exact absurd hmem List.not_mem_nil
  | undebited => exact Or.inl (hkept hmem)
  | completed => exact Or.inl (hkept hmem)
  | failed => exact Or.inl (hkept hmem)
  | uncompleted => exact Or.inl (hkept hmem)
  | unfailed => exact Or.inl (hkept hmem)
  | skipped =>
    rw [tracked_resume] at hmem
    exact Or.inl (hlater hmem)
  | succeeded => exact Or.inl (hlater hmem)
  | reverted => exact Or.inl (hlater hmem)
  | debited => exact Or.inl hmem
  | unlocked => exact Or.inl hmem
  | _ => exact absurd hmem List.not_mem_nil

section Step

variable (hinv : Owned c) (hnext : withdrawalsSystem.next c ⟨p, a⟩ = some d)

include hinv

/-- The recorder of a transaction has the row in hand, and no transaction was recorded. -/
theorem hash_unchanged (hnext : withdrawalsSystem.next c ⟨p, a⟩ = some d) (id : Uuid) :
    hashOf d.shared.db id = hashOf c.shared.db id ∨
      (hashOf c.shared.db id = none ∧ ∃ row ∈ inHand (c.procs p), row.id = id ∧
        unrecorded (d.procs p) = none) := by
  rcases hash_step (workStep_of_next hnext) id with hsame | ⟨row, txHash, hl, hl', rfl, -⟩
  · exact Or.inl hsame
  · have hnone : hashOf c.shared.db row.id = none := hinv.unrecorded p row (by rw [hl]; rfl)
    have hrow : row ∈ inHand (c.procs p) := by
      rw [hl]
      exact List.mem_cons_self
    exact Or.inr ⟨hnone, row, hrow, rfl, hl'⟩

include hnext

theorem hash_persists (h : hashOf c.shared.db id = some txHash) :
    hashOf d.shared.db id = some txHash := by
  rcases hash_unchanged hinv hnext id with hsame | ⟨hnone, -⟩
  · rw [hsame, h]
  · rw [h] at hnone
    cases hnone

/-- A row that stays in a hand stays in processing. -/
theorem processing_kept (hold : row ∈ inHand (c.procs q)) (hnew : row ∈ inHand (d.procs q)) :
    statusOf d.shared.db row.id = some .processing := by
  have hprocessing := hinv.processing q row hold
  cases status_step (workStep_of_next hnext) row.id with
  | same hsame => rw [hsame, hprocessing]
  | created hnone =>
    rw [hprocessing] at hnone
    cases hnone
  | picked _ _ _ _ hpending =>
    rw [hprocessing] at hpending
    cases hpending
  | ended worked status hending hrow hid =>
    obtain rfl : q = p := hinv.apart q p row worked hold (inHand_of_ending hending) hid.symm
    have hnodup := hinv.nodup q
    rw [hrow, List.map_cons, List.nodup_cons] at hnodup
    exact absurd (hid ▸ List.mem_map_of_mem hnew) hnodup.1

omit hinv in
/-- A row in the hand of a process after the step was in it before, or the process has picked
it, or has selected it for recovery. -/
theorem hand_cases (hrow : row ∈ inHand (d.procs q)) : row ∈ inHand (c.procs q) ∨
    (q = p ∧ statusOf c.shared.db row.id = some .pending ∧
      statusOf d.shared.db row.id = some .processing) ∨
    (q = p ∧ c.procs p = .idle ∧ a = .recoverStuckProcessingWithdrawals ∧
      row ∈ c.shared.db.findProcessingWithdrawalsWithTxHash) := by
  by_cases hq : q = p
  · subst hq
    rcases hands_step (workStep_of_next hnext) with
      hsub | ⟨pending, -, hl', hfind, hpending, hprocessing⟩ | ⟨hl, haction, hl'⟩
    · exact Or.inl (hsub.subset hrow)
    · rw [hl'] at hrow
      obtain rfl := List.mem_singleton.mp hrow
      have hstatus : statusOf c.shared.db pending.id = some .pending := by
        rw [statusOf, hfind, Option.map_some, hpending]
      exact Or.inr (Or.inl ⟨rfl, hstatus, hprocessing⟩)
    · rw [hl', inHand_resume] at hrow
      exact Or.inr (Or.inr ⟨rfl, hl, haction, hrow⟩)
  · rw [System.next_procs_of_ne hnext hq] at hrow
    exact Or.inl hrow

theorem processing_step (hrow : row ∈ inHand (d.procs q)) :
    statusOf d.shared.db row.id = some .processing := by
  rcases hand_cases hnext hrow with
    hold | ⟨-, -, hprocessing⟩ | ⟨rfl, hl, -, hselected⟩
  · exact processing_kept hinv hnext hold hrow
  · exact hprocessing
  · have hprocessing := (selected_spec hinv.hands.rows hselected).1
    cases status_step (workStep_of_next hnext) row.id with
    | same hsame => rw [hsame, hprocessing]
    | created hnone =>
      rw [hprocessing] at hnone
      cases hnone
    | picked _ _ _ _ hpending =>
      rw [hprocessing] at hpending
      cases hpending
    | ended worked status hending =>
      rw [hl] at hending
      cases hending

/-- A row that a process has had in hand does not come into the hand of another one. -/
theorem not_taken (hguard : RecoversUnowned c ⟨p, some a⟩) (hold : row ∈ inHand (c.procs q))
    (hother : other ∈ inHand (d.procs p)) (hid : row.id = other.id) :
    other ∈ inHand (c.procs p) := by
  rcases hand_cases hnext hother with h | ⟨-, hpending, -⟩ | ⟨-, -, rfl, hselected⟩
  · exact h
  · have hprocessing := hinv.processing q row hold
    rw [hid, hpending] at hprocessing
    cases hprocessing
  · exact absurd hid.symm (hguard rfl q row hold other hselected)

theorem apart_step (hguard : RecoversUnowned c ⟨p, some a⟩) {r : ℕ}
    (hq : row ∈ inHand (d.procs q)) (hr : other ∈ inHand (d.procs r)) (hid : row.id = other.id) :
    q = r := by
  by_cases hqp : q = p <;> by_cases hrp : r = p
  · rw [hqp, hrp]
  · subst hqp
    rw [System.next_procs_of_ne hnext hrp] at hr
    exact hinv.apart q r row other (not_taken hinv hnext hguard hr hq hid.symm) hr hid
  · subst hrp
    rw [System.next_procs_of_ne hnext hqp] at hq
    exact hinv.apart q r row other hq (not_taken hinv hnext hguard hq hr hid) hid
  · rw [System.next_procs_of_ne hnext hqp] at hq
    rw [System.next_procs_of_ne hnext hrp] at hr
    exact hinv.apart q r row other hq hr hid

theorem nodup_step : ((inHand (d.procs q)).map WithdrawalRequest.id).Nodup := by
  by_cases hq : q = p
  · subst hq
    rcases hands_step (workStep_of_next hnext) with hsub | ⟨row, -, hl', -⟩ | ⟨-, -, hl'⟩
    · exact (hinv.nodup q).sublist (hsub.map _)
    · rw [hl']
      exact List.nodup_singleton _
    · rw [hl', inHand_resume]
      exact hinv.hands.rows.ids.sublist (List.filter_sublist.map _)
  · rw [System.next_procs_of_ne hnext hq]
    exact hinv.nodup q

theorem reported_step (id : Uuid) :
    reports d.shared.db id = finalReports (statusOf d.shared.db id) := by
  have hold := hinv.reported id
  cases status_step (workStep_of_next hnext) id with
  | same hsame hreports => rw [hreports, hsame, hold]
  | created hnone hpending _ hreports => rw [hreports, hpending, hold, hnone]; rfl
  | picked _ _ _ _ hpending hprocessing hreports =>
    rw [hreports, hprocessing, hold, hpending]
    rfl
  | ended worked status hending _ hid hfinal hreports =>
    have hprocessing := hinv.processing p worked (inHand_of_ending hending)
    rw [hid] at hprocessing
    rw [hreports, hfinal, hold, hprocessing]
    rcases status_of_ending hending with rfl | rfl <;> rfl

theorem fresh_step (h : statusOf d.shared.db id = some .pending) :
    hashOf d.shared.db id = none := by
  cases status_step (workStep_of_next hnext) id with
  | same hsame =>
    have hpending := hsame.symm.trans h
    rcases hash_unchanged hinv hnext id with hhash | ⟨-, row, hrow, rfl, -⟩
    · rw [hhash]
      exact hinv.fresh id hpending
    · rw [hinv.processing p row hrow] at hpending
      cases hpending
  | created _ _ hhash => exact hhash
  | picked _ _ _ _ _ hprocessing =>
    rw [hprocessing] at h
    cases h
  | ended worked status hending _ _ hfinal =>
    rw [hfinal] at h
    obtain ⟨_, -, rfl⟩ := Option.map_eq_some_iff.mp h
    rcases status_of_ending hending with h | h <;> cases h

theorem unrecorded_next (hrow : unrecorded (d.procs q) = some row) :
    hashOf d.shared.db row.id = none := by
  by_cases hq : q = p
  · subst hq
    have hold : hashOf c.shared.db row.id = none := by
      rcases unrecorded_step (workStep_of_next hnext) hrow with hold | hpending
      · exact hinv.unrecorded q row hold
      · exact hinv.fresh row.id hpending
    rcases hash_unchanged hinv hnext row.id with hhash | ⟨-, -, -, -, hnone⟩
    · rw [hhash, hold]
    · rw [hnone] at hrow
      cases hrow
  · rw [System.next_procs_of_ne hnext hq] at hrow
    rcases hash_unchanged hinv hnext row.id with hhash | ⟨-, other, hother, hid, -⟩
    · rw [hhash]
      exact hinv.unrecorded q row hrow
    · exact absurd (hinv.apart q p row other (inHand_of_unrecorded hrow) hother hid.symm) hq

theorem owned_step (hguard : RecoversUnowned c ⟨p, some a⟩) : Owned d where
  hands := handsInvariant_step hinv.hands hnext
  processing _ _ := processing_step hinv hnext
  apart _ _ _ _ := apart_step hinv hnext hguard
  nodup _ := nodup_step hinv hnext
  reported := reported_step hinv hnext
  fresh _ := fresh_step hinv hnext
  unrecorded _ _ := unrecorded_next hinv hnext
  tracked q id txHash hmem := by
    by_cases hq : q = p
    · subst hq
      have hstored : ∀ row ∈ inHand (c.procs q), statusOf c.shared.db row.id ≠ none := by
        intro row hrow
        rw [hinv.processing q row hrow]
        exact Option.some_ne_none _
      rcases tracked_step hinv.hands.rows hstored (workStep_of_next hnext) hmem with hold | hnew
      · exact hash_persists hinv hnext (hinv.tracked q id txHash hold)
      · exact hnew
    · rw [System.next_procs_of_ne hnext hq] at hmem
      exact hash_persists hinv hnext (hinv.tracked q id txHash hmem)

end Step

theorem Owned.stopped (hinv : Owned c) (p : ℕ) : Owned (WithdrawalRecovery.stopped c p) where
  hands := hinv.hands.stopped p
  processing q row hrow := hinv.processing q row (inHand_stopped hrow).2
  apart q r row other hq hr :=
    hinv.apart q r row other (inHand_stopped hq).2 (inHand_stopped hr).2
  nodup q := by
    rcases stopped_procs c p q with ⟨-, hproc⟩ | ⟨-, hproc⟩
    · rw [hproc]
      exact List.nodup_nil
    · rw [hproc]
      exact hinv.nodup q
  reported := hinv.reported
  fresh := hinv.fresh
  unrecorded q row hrow := by
    rcases stopped_procs c p q with ⟨-, hproc⟩ | ⟨-, hproc⟩
    · rw [hproc] at hrow
      cases hrow
    · rw [hproc] at hrow
      exact hinv.unrecorded q row hrow
  tracked q id txHash hmem := by
    rcases stopped_procs c p q with ⟨-, hproc⟩ | ⟨-, hproc⟩
    · rw [hproc] at hmem
      exact absurd hmem List.not_mem_nil
    · rw [hproc] at hmem
      exact hinv.tracked q id txHash hmem

/-- A final row keeps its status. -/
theorem final_step (hinv : Owned c) (hnext : withdrawalsSystem.next c ⟨p, a⟩ = some d)
    {status : WithdrawalStatus} (hfinal : status = .completed ∨ status = .failed)
    (h : statusOf c.shared.db id = some status) : statusOf d.shared.db id = some status := by
  cases status_step (workStep_of_next hnext) id with
  | same hsame => rw [hsame, h]
  | created hnone =>
    rw [h] at hnone
    cases hnone
  | picked _ _ _ _ hpending =>
    obtain rfl := Option.some.inj (h.symm.trans hpending)
    rcases hfinal with h | h <;> cases h
  | ended worked _ hending _ hid =>
    have hprocessing := hinv.processing p worked (inHand_of_ending hending)
    rw [hid] at hprocessing
    obtain rfl := Option.some.inj (h.symm.trans hprocessing)
    rcases hfinal with h | h <;> cases h

end EtherTrade.WithdrawalOwnership
