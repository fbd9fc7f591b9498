import EtherTrade.WithdrawalRecovery
import EtherTrade.WithdrawalRefundLaws

/-!
# Withdrawals that somebody still picks up

Whether every withdrawal that is not final is one that the worker loop or a recovery pass
will select, or that a running process has in hand, wherever processes crash.
-/

namespace EtherTrade.WithdrawalRecoveryLaws

open KeyedRows AccountsSchema AccountsDbInvariants BalanceMutations SequentialRequests
open WithdrawalsSchema WithdrawalTransactions WithdrawalTransactionSteps
open WithdrawalTransactionInvariants WithdrawalPayoutLaws WithdrawalRefundLaws
open WithdrawalRecovery InterleavedProcesses

variable {c d : WithdrawalsConfig} {e : CrashEvent} {es : List CrashEvent}
  {s : TransfersStore} {l l' : Process} {action : Action} {id : Uuid}
  {row : WithdrawalRequest} {db' : TransfersDb} {p : ℕ}

/-! ### Recorded transactions -/

theorem inHand_of_recorded (h : row ∈ recorded l) : row ∈ inHand l := by
  unfold recorded at h
  split at h
  · exact h
  · exact h
  · exact h
  · exact List.mem_cons_of_mem _ h
  · exact h
  · exact absurd h List.not_mem_nil

theorem statusOf_stored (h : Stored s row) : statusOf s.db row.id ≠ none := by
  obtain ⟨stored, hmem, hid, -⟩ := h
  intro hnone
  exact lookup_eq_none.mp (Option.map_eq_none_iff.mp hnone) stored hmem hid

theorem hash_kept (h : WorkStep s l action db' l') (hhash : (hashOf s.db id).isSome) :
    (hashOf db' id).isSome := by
  rcases hash_step h id with hsame | ⟨row, txHash, -, -, -, hset⟩
  · rwa [hsame]
  · rw [hset, Option.isSome_map]
    unfold statusOf
    rw [Option.isSome_map]
    cases hfind : s.db.findWithdrawalById id with
    | none => simp [hashOf, hfind] at hhash
    | some row => rfl

/-- A process that goes on with a recorded transaction has had it before, or has recorded or
read it in this step. -/
theorem recorded_step (hunique : UniqueRows s.db) (hstored : ∀ row ∈ inHand l, Stored s row)
    (h : WorkStep s l action db' l') (hrow : row ∈ recorded l') :
    row ∈ recorded l ∨ (hashOf db' row.id).isSome := by
  have hnone (hl' : inHand l' = []) : row ∈ recorded l ∨ (hashOf db' row.id).isSome := by
    have hhand := inHand_of_recorded hrow
    rw [hl'] at hhand
    exact absurd hhand List.not_mem_nil
  cases h with
  | bystander hl hl' => exact hnone hl'
  | inserted hl hl' => exact hnone hl'
  | picked => exact absurd hrow List.not_mem_nil
  | recovered =>
    rw [recorded_resume] at hrow
    obtain ⟨hmem, hselected⟩ := List.mem_filter.mp hrow
    refine Or.inr ?_
    rw [hashOf, find_of_mem hunique hmem]
    exact (of_decide_eq_true hselected).2
  | broadcast => exact absurd hrow List.not_mem_nil
  | @recorded worked txHash _ _ hl' =>
    rcases hl' with rfl | ⟨reason, rfl⟩
    · obtain rfl := List.mem_singleton.mp hrow
      refine Or.inr ?_
      obtain ⟨stored, hfind⟩ := Option.ne_none_iff_exists'.mp fun hnone =>
        statusOf_stored (hstored row List.mem_cons_self) (Option.map_eq_none_iff.mpr hnone)
      rw [hashOf_update (keepsRequest_recordTx txHash 0).id, if_pos rfl, hfind]
      rfl
    · exact absurd hrow List.not_mem_nil
  | gaveUp => exact absurd hrow List.not_mem_nil
  | undebited =>
    rw [recorded_resume] at hrow
    exact Or.inl (List.mem_cons_of_mem _ hrow)
  | completed =>
    rw [recorded_resume] at hrow
    exact Or.inl (List.mem_cons_of_mem _ hrow)
  | failed =>
    rw [recorded_resume] at hrow
    exact Or.inl hrow
  | uncompleted =>
    rw [recorded_resume] at hrow
    exact Or.inl (List.mem_cons_of_mem _ hrow)
  | unfailed =>
    rw [recorded_resume] at hrow
    exact Or.inl hrow
  | skipped =>
    rw [recorded_resume] at hrow
    exact Or.inl (List.mem_cons_of_mem _ hrow)
  | reverted => exact Or.inl (List.mem_cons_of_mem _ hrow)
  | _ => exact Or.inl hrow

/-! ### Rows that are dropped -/

/-- The process crashes with the row in hand, or fails to record its failure. -/
inductive Abandons (c : WithdrawalsConfig) (e : CrashEvent) : WithdrawalRequest → Prop
  | crashed {row : WithdrawalRequest} (haction : e.action = none)
      (hrow : row ∈ inHand (c.procs e.proc)) : Abandons c e row
  | unfailed {row : WithdrawalRequest} {reason message : String} {rest : List WithdrawalRequest}
      (haction : e.action = some (.abort message))
      (hproc : c.procs e.proc = .finalizing row (.failing reason) rest) : Abandons c e row

/-- A row that is dropped is recorded with a transaction, final, or abandoned. -/
theorem dropped_step (h : WorkStep s l action db' l') (hrow : row ∈ inHand l) :
    row ∈ inHand l' ∨ row ∈ recorded l ∨ statusOf db' row.id ≠ some .processing ∨
      ∃ reason message rest, action = .abort message ∧
        l = .finalizing row (.failing reason) rest := by
  have hended {worked : WithdrawalRequest} {progress : Finalizing}
      {rest : List WithdrawalRequest} (hrow : row ∈ inHand (.finalizing worked progress rest)) :
      row = worked ∨ row ∈ inHand (resume rest) := by
    rw [inHand_resume]
    exact List.mem_cons.mp hrow
  cases h with
  | bystander hl => exact absurd (hl ▸ hrow) List.not_mem_nil
  | inserted hl => exact absurd (hl ▸ hrow) List.not_mem_nil
  | picked => exact absurd hrow List.not_mem_nil
  | recovered => exact absurd hrow List.not_mem_nil
  | recorded hl' =>
    rcases hl' with rfl | ⟨reason, rfl⟩ <;> exact Or.inl hrow
  | undebited => exact Or.inr (Or.inl hrow)
  | @completed worked txHash rest =>
    rcases hended hrow with rfl | hrest
    · refine Or.inr (Or.inr (Or.inl ?_))
      change statusOf (s.db.updateWithdrawal row.id _) row.id ≠ _
      rw [statusOf_update keepsRequest_complete.id, if_pos rfl]
      cases s.db.findWithdrawalById row.id <;> simp [WithdrawalRequest.complete]
    · exact Or.inl hrest
  | @failed worked reason rest =>
    rcases hended hrow with rfl | hrest
    · refine Or.inr (Or.inr (Or.inl ?_))
      change statusOf (s.db.updateWithdrawal row.id _) row.id ≠ _
      rw [statusOf_update (keepsRequest_fail _).id, if_pos rfl]
      cases s.db.findWithdrawalById row.id <;> simp [WithdrawalRequest.fail]
    · exact Or.inl hrest
  | uncompleted => exact Or.inr (Or.inl hrow)
  | @unfailed worked reason message rest =>
    rcases hended hrow with rfl | hrest
    · exact Or.inr (Or.inr (Or.inr ⟨reason, message, rest, rfl, rfl⟩))
    · exact Or.inl hrest
  | skipped => exact Or.inr (Or.inl hrow)
  | _ => exact Or.inl hrow

/-! ### Runs -/

/-- Whatever is abandoned has its transaction recorded. -/
def AbandonsRecorded (c : WithdrawalsConfig) (e : CrashEvent) : Prop :=
  ∀ row, Abandons c e row → (hashOf c.shared.db row.id).isSome

structure RecoveryInvariant (c : WithdrawalsConfig) : Prop where
  hands : HandsInvariant c
  recorded : ∀ p, ∀ row ∈ recorded (c.procs p), (hashOf c.shared.db row.id).isSome
  covered : ∀ id, statusOf c.shared.db id = some .processing → (hashOf c.shared.db id).isSome ∨
    ∃ p, ∃ row ∈ inHand (c.procs p), row.id = id

theorem recoveryInvariant_initial : RecoveryInvariant initial where
  hands := handsInvariant_initial
  recorded _ _ h := absurd h List.not_mem_nil
  covered _ h := (Option.some_ne_none _ h.symm).elim

theorem recoveryInvariant_step {a : Action} (hinv : RecoveryInvariant c)
    (hguard : AbandonsRecorded c ⟨p, some a⟩)
    (hnext : withdrawalsSystem.next c ⟨p, a⟩ = some d) : RecoveryInvariant d := by
  have hwork := workStep_of_next hnext
  refine ⟨handsInvariant_step hinv.hands hnext, fun q row hrow => ?_, fun id hstatus => ?_⟩
  · by_cases hq : q = p
    · subst hq
      rcases recorded_step hinv.hands.rows (hinv.hands.stored q) hwork hrow with hold | hhash
      · exact hash_kept hwork (hinv.recorded q row hold)
      · exact hhash
    · rw [System.next_procs_of_ne hnext hq] at hrow
      exact hash_kept hwork (hinv.recorded q row hrow)
  · have hcovered (h : statusOf c.shared.db id = some .processing) :
        (hashOf d.shared.db id).isSome ∨ ∃ q, ∃ row ∈ inHand (d.procs q), row.id = id := by
      rcases hinv.covered id h with hhash | ⟨q, row, hrow, rfl⟩
      · exact Or.inl (hash_kept hwork hhash)
      · by_cases hq : q = p
        · subst hq
          rcases dropped_step hwork hrow with
            hkept | hrecorded | hfinal | ⟨reason, message, rest, rfl, hproc⟩
          · exact Or.inr ⟨q, row, hkept, rfl⟩
          · exact Or.inl (hash_kept hwork (hinv.recorded q row hrecorded))
          · exact absurd hstatus hfinal
          · exact Or.inl (hash_kept hwork (hguard row (.unfailed rfl hproc)))
        · exact Or.inr ⟨q, row, by rwa [System.next_procs_of_ne hnext hq], rfl⟩
    cases status_step hwork id with
    | same hsame => exact hcovered (hsame.symm.trans hstatus)
    | created _ hpending =>
      rw [hpending] at hstatus
      cases hstatus
    | picked row _ hl' hid => exact Or.inr ⟨p, row, by rw [hl']; exact List.mem_cons_self, hid⟩
    | ended row status hending _ _ hended =>
      rw [hended] at hstatus
      obtain ⟨_, -, rfl⟩ := Option.map_eq_some_iff.mp hstatus
      rcases status_of_ending hending with h | h <;> cases h

theorem recoveryInvariant_next (hinv : RecoveryInvariant c) (hguard : AbandonsRecorded c e)
    (hnext : crashingSystem.next c e = some d) : RecoveryInvariant d := by
  rcases crashing_next hnext with ⟨a, haction, -, hnext⟩ | ⟨haction, rfl⟩
  · obtain ⟨p, action⟩ := e
    obtain rfl : action = some a := haction
    exact recoveryInvariant_step hinv hguard hnext
  · refine ⟨hinv.hands.stopped e.proc, fun q row hrow => ?_, fun id hstatus => ?_⟩
    · rcases stopped_procs c e.proc q with ⟨-, hproc⟩ | ⟨-, hproc⟩
      · change row ∈ recorded ((stopped c e.proc).procs q) at hrow
        rw [hproc] at hrow
        exact absurd hrow List.not_mem_nil
      · change row ∈ recorded ((stopped c e.proc).procs q) at hrow
        rw [hproc] at hrow
        exact hinv.recorded q row hrow
    · rcases hinv.covered id hstatus with hhash | ⟨q, row, hrow, rfl⟩
      · exact Or.inl hhash
      · rcases stopped_procs c e.proc q with ⟨rfl, -⟩ | ⟨-, hproc⟩
        · exact Or.inl (hguard row (.crashed haction hrow))
        · exact Or.inr ⟨q, row, by rw [← hproc] at hrow; exact hrow, rfl⟩

/-- The worker loop or a recovery pass will select the row, or a running process has it in
hand. -/
def Recoverable (c : WithdrawalsConfig) (row : WithdrawalRequest) : Prop :=
  row.status = .pending ∨ row ∈ c.shared.db.findProcessingWithdrawalsWithTxHash ∨
    ∃ p, ∃ held ∈ inHand (c.procs p), held.id = row.id

/-- In every run in which only rows with a recorded transaction are abandoned, each row that
is not final is still picked up. -/
theorem recoverable_of_abandonsRecorded
    (h : crashingSystem.Run AbandonsRecorded initial es c) :
    ∀ row ∈ c.shared.db.withdrawals, row.status = .pending ∨ row.status = .processing →
      Recoverable c row := by
  have hinv : RecoveryInvariant c := h.invariant recoveryInvariant_initial
    fun _ _ _ hinv hguard hnext => recoveryInvariant_next hinv hguard hnext
  intro row hrow hstatus
  rcases hstatus with hpending | hprocessing
  · exact Or.inl hpending
  · have hfind := find_of_mem hinv.hands.rows hrow
    have hstatus : statusOf c.shared.db row.id = some .processing :=
      (statusOf_of_mem hinv.hands.rows hrow).trans (congrArg some hprocessing)
    rcases hinv.covered row.id hstatus with hhash | hheld
    · rw [hashOf, hfind] at hhash
      exact Or.inr (Or.inl (List.mem_filter.mpr ⟨hrow, decide_eq_true ⟨hprocessing, hhash⟩⟩))
    · exact Or.inr (Or.inr hheld)

/-! ### Crashes before the transaction is recorded -/

/-- A step that abandons no row without a recorded transaction. -/
def abandonsRecorded (t : System.Transition TransfersStore Process (Option Action)) : Bool :=
  match t.event.action, t.before.procs t.event.proc with
  | none, process => (inHand process).all fun row => (hashOf t.before.shared.db row.id).isSome
  | some (.abort _), .finalizing row (.failing _) _ =>
    (hashOf t.before.shared.db row.id).isSome
  | _, _ => true

theorem abandonsRecorded_spec {t : System.Transition TransfersStore Process (Option Action)}
    (h : abandonsRecorded t = true) : AbandonsRecorded t.before t.event := by
  intro row habandons
  cases habandons with
  | crashed haction hrow =>
    rw [abandonsRecorded, haction] at h
    exact List.all_eq_true.mp h row hrow
  | unfailed haction hproc =>
    rw [abandonsRecorded, haction, hproc] at h
    exact h

theorem run_of_abandonsRecorded (h : crashingSystem.exec initial es = some c)
    (hall : (crashingSystem.transitions initial es).all abandonsRecorded = true) :
    crashingSystem.Run AbandonsRecorded initial es c :=
  .of_check h hall fun _ => abandonsRecorded_spec

/-- The processor crashes while it waits for the receipt, and a recovery pass begins. -/
def crashAfterRecording : List CrashEvent :=
  uncrashed (deposited :: requested 1 2 oneEther "w" ++
    [⟨2, .broadcast (.sent "0x1")⟩, ⟨2, .statement⟩]) ++
  [⟨2, none⟩] ++ uncrashed [⟨0, .mine "0x1" true⟩, ⟨3, .recoverStuckProcessingWithdrawals⟩]

/-- The processor crashes between picking a withdrawal and broadcasting it. -/
def crashAfterPicking : List CrashEvent :=
  uncrashed (deposited :: requested 1 2 oneEther "w") ++ [⟨2, none⟩]

theorem crashAfterRecording_executes :
    (crashingSystem.exec initial crashAfterRecording).map (fun c => c.shared.db.withdrawals) =
      some [pickedRow.recordTx "0x1" 0] ∧
    (crashingSystem.transitions initial crashAfterRecording).all abandonsRecorded = true := by
  decide +kernel

theorem recoverable_crashAfterRecording :
    ∃ c, crashingSystem.exec initial crashAfterRecording = some c ∧
      Recoverable c (pickedRow.recordTx "0x1" 0) := by
  obtain ⟨c, hexec, hrows⟩ := Option.map_eq_some_iff.mp crashAfterRecording_executes.1
  refine ⟨c, hexec, recoverable_of_abandonsRecorded
    (run_of_abandonsRecorded hexec crashAfterRecording_executes.2) _ ?_ (Or.inr rfl)⟩
  rw [hrows]
  exact List.mem_singleton_self _

theorem crashAfterPicking_executes :
    (crashingSystem.exec initial crashAfterPicking).map
      (fun c => (c.shared.db.withdrawals, inHand (c.procs 0) ++ inHand (c.procs 1) ++
        inHand (c.procs 2))) = some ([pickedRow], []) := by
  decide +kernel

/-- The row stays in processing without a transaction, and no query selects it. -/
theorem not_recoverable_crashAfterPicking : ¬∀ es c, crashingSystem.exec initial es = some c →
    ∀ row ∈ c.shared.db.withdrawals, row.status = .pending ∨ row.status = .processing →
      Recoverable c row := by
  intro h
  obtain ⟨c, hexec, hresult⟩ := Option.map_eq_some_iff.mp crashAfterPicking_executes
  obtain ⟨hrows, hhands⟩ := Prod.mk.inj hresult
  simp only [List.append_eq_nil_iff] at hhands
  obtain ⟨⟨hzero, hone⟩, htwo⟩ := hhands
  have hnothing (p : ℕ) : inHand (c.procs p) = [] := by
    by_cases hp : p < 3
    · obtain rfl | rfl | rfl : p = 0 ∨ p = 1 ∨ p = 2 := by omega
      · exact hzero
      · exact hone
      · exact htwo
    · rw [System.exec_procs_of_le hexec (n := 3) (by decide) (Nat.not_lt.mp hp)]
      rfl
  have hrow : pickedRow ∈ c.shared.db.withdrawals := by
    rw [hrows]
    exact List.mem_singleton_self _
  rcases h crashAfterPicking c hexec pickedRow hrow (Or.inr rfl) with
    hpending | hselected | ⟨p, held, hheld, -⟩
  · exact absurd hpending (by decide)
  · exact absurd (of_decide_eq_true (List.mem_filter.mp hselected).2).2 (by decide)
  · rw [hnothing p] at hheld
    exact absurd hheld List.not_mem_nil

end EtherTrade.WithdrawalRecoveryLaws
