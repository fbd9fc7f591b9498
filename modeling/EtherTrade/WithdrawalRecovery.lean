import EtherTrade.StoppingProcesses
import EtherTrade.WithdrawalTransactionInvariants

/-!
# Withdrawals with crashes and recovery

The withdrawals system in which any process may stop for good, so that the rows it had in
hand are nobody's. What a step does to the rows in hand, to a row by its id and to its
terminal events is said here once.
-/

namespace EtherTrade.WithdrawalRecovery

open KeyedRows AccountsSchema AccountsDbInvariants BalanceMutations SequentialRequests
open WithdrawalsSchema WithdrawalTransactions WithdrawalTransactionSteps
open WithdrawalTransactionInvariants InterleavedProcesses

/-- The transfers service alone calls `debitWithdrawalFunds`. -/
def Undebited : Action → Prop
  | .accounts (.call op _ _) => op ≠ .debitWithdrawal
  | _ => True

instance : DecidablePred Undebited := fun action =>
  match action with
  | .accounts (.call _ _ _) => inferInstanceAs (Decidable (_ ≠ _))
  | .accounts (.deliver _ _) => inferInstanceAs (Decidable True)
  | .requestWithdrawal _ => inferInstanceAs (Decidable True)
  | .processNextWithdrawal _ => inferInstanceAs (Decidable True)
  | .recoverStuckProcessingWithdrawals => inferInstanceAs (Decidable True)
  | .statement => inferInstanceAs (Decidable True)
  | .insert _ => inferInstanceAs (Decidable True)
  | .insertUnacknowledged _ => inferInstanceAs (Decidable True)
  | .call _ => inferInstanceAs (Decidable True)
  | .broadcast _ => inferInstanceAs (Decidable True)
  | .abort _ => inferInstanceAs (Decidable True)
  | .commitUnacknowledged _ => inferInstanceAs (Decidable True)
  | .mine _ _ => inferInstanceAs (Decidable True)
  | .arrive _ => inferInstanceAs (Decidable True)

/-- `none` is the crash of a process. A restarted service is a new process, which begins with
the recovery pass. -/
def crashingSystem : System TransfersStore Process (Option Action) :=
  (withdrawalsSystem.restrict Undebited).withStops .finished

abbrev CrashEvent := Event (Option Action)

/-- A schedule without crashes. -/
def uncrashed (events : List (Event Action)) : List CrashEvent :=
  events.map fun event => ⟨event.proc, some event.action⟩

variable {c d : WithdrawalsConfig} {e : CrashEvent} {s s' : TransfersStore} {l l' : Process}
  {action : Action} {id : Uuid} {row : WithdrawalRequest} {rest : List WithdrawalRequest}
  {db db' : TransfersDb} {p q : ℕ}

/-- A step is one of the withdrawals system, or a crash. -/
theorem crashing_next (h : crashingSystem.next c e = some d) :
    (∃ action, e.action = some action ∧ Undebited action ∧
      withdrawalsSystem.next c ⟨e.proc, action⟩ = some d) ∨
    (e.action = none ∧ d = ⟨c.shared, Function.update c.procs e.proc .finished⟩) := by
  rcases System.withStops_next h with ⟨action, haction, hnext⟩ | hstopped
  · obtain ⟨hallowed, hnext⟩ := System.restrict_next hnext
    exact Or.inl ⟨action, haction, hallowed, hnext⟩
  · exact Or.inr hstopped

/-! ### Rows in hand -/

/-- The rows that a process has read and not done with. -/
def inHand : Process → List WithdrawalRequest
  | .executing row _ => [row]
  | .finalizing row _ rest => row :: rest
  | .recovering rest => rest
  | _ => []

/-- Those of them whose transaction is recorded. -/
def recorded : Process → List WithdrawalRequest
  | .executing row (.awaitingReceipt _) => [row]
  | .finalizing row (.debiting _) rest => row :: rest
  | .finalizing row (.completing _) rest => row :: rest
  | .finalizing _ _ rest => rest
  | .recovering rest => rest
  | _ => []

/-- The row whose transaction the process has not recorded yet. -/
def unrecorded : Process → Option WithdrawalRequest
  | .executing row .broadcasting => some row
  | .executing row (.recording _) => some row
  | _ => none

/-- The row whose end the process is about to record, and the status it will get. -/
def ending : Process → Option (WithdrawalRequest × WithdrawalStatus)
  | .finalizing row (.completing _) _ => some (row, .completed)
  | .finalizing row (.failing _) _ => some (row, .failed)
  | _ => none

@[simp] theorem inHand_resume : inHand (resume rest) = rest := by cases rest <;> rfl

@[simp] theorem recorded_resume : recorded (resume rest) = rest := by cases rest <;> rfl

@[simp] theorem unrecorded_resume : unrecorded (resume rest) = none := by cases rest <;> rfl

@[simp] theorem ending_resume : ending (resume rest) = none := by cases rest <;> rfl

theorem status_of_ending {status : WithdrawalStatus} (h : ending l = some (row, status)) :
    status = .completed ∨ status = .failed := by
  unfold ending at h
  split at h
  · cases h
    exact Or.inl rfl
  · cases h
    exact Or.inr rfl
  · cases h

theorem inHand_of_ending {status : WithdrawalStatus} (h : ending l = some (row, status)) :
    row ∈ inHand l := by
  unfold ending at h
  split at h <;> cases h <;> exact List.mem_cons_self

/-- What a step does to the table and the outbox, and what becomes of the process. -/
inductive WorkStep (s : TransfersStore) : Process → Action → TransfersDb → Process → Prop
  | bystander {l l' : Process} {action : Action} (hl : inHand l = []) (hl' : inHand l' = []) :
      WorkStep s l action s.db l'
  | inserted {l l' : Process} {action : Action} {terms : WithdrawalTerms} {newId : Uuid}
      (hl : inHand l = []) (hl' : inHand l' = []) (hid : s.db.findWithdrawalById newId = none) :
      WorkStep s l action (s.db.insertWithdrawal (.create terms newId)) l'
  | picked {id : Uuid} {row : WithdrawalRequest} (hfind : s.db.findWithdrawalById id = some row)
      (hpending : row.status = .pending) :
      WorkStep s .idle (.processNextWithdrawal id)
        (s.db.updateWithdrawal id WithdrawalRequest.startProcessing)
        (.executing row.startProcessing .broadcasting)
  | recovered : WorkStep s .idle .recoverStuckProcessingWithdrawals s.db
      (resume s.db.findProcessingWithdrawalsWithTxHash)
  | broadcast {row : WithdrawalRequest} {txHash : String} {action : Action} :
      WorkStep s (.executing row .broadcasting) action s.db (.executing row (.recording txHash))
  | recorded {row : WithdrawalRequest} {txHash : String} {l' : Process} {action : Action}
      (hl' : l' = .executing row (.awaitingReceipt txHash) ∨
        ∃ reason, l' = .finalizing row (.unlocking reason) []) :
      WorkStep s (.executing row (.recording txHash)) action
        (s.db.updateWithdrawal row.id fun row => row.recordTx txHash 0) l'
  | gaveUp {row : WithdrawalRequest} {progress : Executing} {reason : String} {action : Action} :
      WorkStep s (.executing row progress) action s.db (.finalizing row (.unlocking reason) [])
  | received {row : WithdrawalRequest} {txHash : String} {action : Action}
      (hstatus : (findTransaction s txHash).map ChainTransaction.status = some .success) :
      WorkStep s (.executing row (.awaitingReceipt txHash)) action s.db
        (.finalizing row (.debiting txHash) [])
  | debited {row : WithdrawalRequest} {txHash : String} {rest : List WithdrawalRequest}
      (hsucceeds : (BalanceCall.debit row).succeeds s.accounts = true) :
      WorkStep s (.finalizing row (.debiting txHash) rest) (.call .answered) s.db
        (.finalizing row (.completing txHash) rest)
  | undebited {row : WithdrawalRequest} {txHash : String} {rest : List WithdrawalRequest}
      {delivery : Delivery} :
      WorkStep s (.finalizing row (.debiting txHash) rest) (.call delivery) s.db (resume rest)
  | unlocked {row : WithdrawalRequest} {reason : String} {rest : List WithdrawalRequest}
      {delivery : Delivery} :
      WorkStep s (.finalizing row (.unlocking reason) rest) (.call delivery) s.db
        (.finalizing row (.failing reason) rest)
  | completed {row : WithdrawalRequest} {txHash : String} {rest : List WithdrawalRequest} :
      WorkStep s (.finalizing row (.completing txHash) rest) .statement
        ((s.db.updateWithdrawal row.id fun row => row.complete).insertEvent
          (.completed row.id row.userId row.currency row.amount txHash)) (resume rest)
  | failed {row : WithdrawalRequest} {reason : String} {rest : List WithdrawalRequest} :
      WorkStep s (.finalizing row (.failing reason) rest) .statement
        ((s.db.updateWithdrawal row.id fun row =>
            row.fail (String.ofList (reason.toList.take 255))).insertEvent
          (.failed row.id row.userId row.currency row.amount ""
            (String.ofList (reason.toList.take 255)))) (resume rest)
  | uncompleted {row : WithdrawalRequest} {txHash message : String}
      {rest : List WithdrawalRequest} :
      WorkStep s (.finalizing row (.completing txHash) rest) (.abort message) s.db (resume rest)
  | unfailed {row : WithdrawalRequest} {reason message : String}
      {rest : List WithdrawalRequest} :
      WorkStep s (.finalizing row (.failing reason) rest) (.abort message) s.db (resume rest)
  | skipped {row : WithdrawalRequest} {rest : List WithdrawalRequest} {action : Action} :
      WorkStep s (.recovering (row :: rest)) action s.db (resume rest)
  | succeeded {row : WithdrawalRequest} {txHash : String} {rest : List WithdrawalRequest}
      (htx : row.txHash = some txHash)
      (hstatus : (findTransaction s txHash).map ChainTransaction.status = some .success) :
      WorkStep s (.recovering (row :: rest)) .statement s.db
        (.finalizing row (.debiting txHash) rest)
  | reverted {row : WithdrawalRequest} {txHash reason : String} {rest : List WithdrawalRequest}
      (htx : row.txHash = some txHash)
      (hstatus : (findTransaction s txHash).map ChainTransaction.status = some .reverted) :
      WorkStep s (.recovering (row :: rest)) .statement s.db
        (.finalizing row (.unlocking reason) rest)

private theorem requesting_work {terms : WithdrawalTerms} {progress progress' : Requesting}
    (h : requestingStep s terms progress action = some (s', progress')) :
    WorkStep s (.requesting terms progress) action s'.db (.requesting terms progress') := by
  have hstored {stored : TransfersStore} {newId : Uuid} (progress progress' : Requesting)
      (action : Action) (hcreate : createWithdrawalRequest s (.create terms newId) = some stored) :
      WorkStep s (.requesting terms progress) action stored.db (.requesting terms progress') := by
    obtain ⟨-, hid, rfl⟩ := createWithdrawalRequest_eq_some hcreate
    exact .inserted rfl rfl hid
  unfold requestingStep at h
  split at h
  · split at h <;> cases h <;> exact .bystander rfl rfl
  · cases h
    exact .bystander rfl rfl
  · dsimp only at h
    split at h
    · next hcreate =>
      cases h
      exact hstored _ _ _ hcreate
    · cases h
      exact .bystander rfl rfl
  · obtain ⟨stored, hcreate, heq⟩ := Option.map_eq_some_iff.mp h
    cases heq
    exact hstored _ _ _ hcreate
  · cases h
    exact .bystander rfl rfl
  · cases h

private theorem executing_work {progress : Executing}
    (h : executingStep s row progress action = some (s', l')) :
    WorkStep s (.executing row progress) action s'.db l' := by
  unfold executingStep at h
  split at h
  · split at h <;> cases h
    exact .gaveUp
  · split at h
    · cases h
    · cases h
      exact .gaveUp
    · split at h <;> cases h
      exact .broadcast
    · split at h <;> cases h
      exact .gaveUp
  · cases h
    exact .recorded (Or.inl rfl)
  · cases h
    exact .recorded (Or.inr ⟨_, rfl⟩)
  · cases h
    exact .gaveUp
  · split at h <;> cases h
    · next hstatus => exact .received hstatus
    · exact .gaveUp
  · cases h
    exact .gaveUp
  · cases h

private theorem finalizing_work {progress : Finalizing}
    (h : finalizingStep s row rest progress action = some (s', l')) :
    WorkStep s (.finalizing row progress rest) action s'.db l' := by
  unfold finalizingStep at h
  split at h <;> cases h
  · exact .completed
  · exact .failed
  · exact .uncompleted
  · exact .unfailed

private theorem recovering_work (h : recoveringStep s rest action = some l') :
    WorkStep s (.recovering rest) action s.db l' := by
  unfold recoveringStep at h
  split at h
  · split at h
    · cases h
      exact .skipped
    · next htx =>
      split at h <;> cases h
      · next hstatus => exact .succeeded htx hstatus
      · next hstatus => exact .reverted htx hstatus
      · exact .skipped
  · cases h
    exact .skipped
  · cases h

private theorem idle_work (h : idleStep s action = some (s', l')) :
    WorkStep s .idle action s'.db l' := by
  unfold idleStep at h
  split at h
  · split at h <;> cases h <;> exact .bystander rfl rfl
  · split at h
    · cases h
    · next hfind =>
      split at h <;> cases h
      next hpending => exact .picked hfind hpending
  · cases h
    exact .recovered
  · cases h
    exact .bystander rfl rfl
  · split at h <;> cases h
    exact .bystander rfl rfl
  · split at h
    · obtain ⟨⟨accounts, answer⟩, -, heq⟩ := Option.map_eq_some_iff.mp h
      cases heq
      exact .bystander rfl rfl
    · cases h
  · cases h

private theorem call_work {delivery : Delivery} (h : callStep s l delivery = some (s', l')) :
    WorkStep s l (.call delivery) s'.db l' := by
  have hafter (succeeded : Bool) {call : BalanceCall} (hcall : l.nextCall = some call)
      (hsucceeds : succeeded = true → delivery = .answered ∧ call.succeeds s.accounts = true) :
      WorkStep s l (.call delivery) s.db (l.afterCall succeeded) := by
    unfold Process.nextCall at hcall
    split at hcall <;> cases hcall
    · exact .bystander rfl rfl
    · exact .bystander rfl rfl
    · cases succeeded with
      | true =>
        obtain ⟨rfl, hdebit⟩ := hsucceeds rfl
        exact .debited hdebit
      | false => exact .undebited
    · exact .unlocked
  cases delivery with
  | answered =>
    obtain ⟨call, hcall, heq⟩ := Option.map_eq_some_iff.mp h
    cases heq
    exact hafter _ hcall fun hsucceeds => ⟨rfl, hsucceeds⟩
  | unanswered =>
    obtain ⟨call, hcall, heq⟩ := Option.map_eq_some_iff.mp h
    cases heq
    exact hafter false hcall fun hsucceeds => absurd hsucceeds Bool.false_ne_true

theorem work_cases (h : step p s l action = some (s', l')) : WorkStep s l action s'.db l' := by
  unfold step at h
  split at h
  · exact call_work h
  · exact idle_work h
  · obtain ⟨⟨stored, progress⟩, hstep, heq⟩ := Option.map_eq_some_iff.mp h
    cases heq
    exact requesting_work hstep
  · exact executing_work h
  · exact finalizing_work h
  · obtain ⟨process, hstep, heq⟩ := Option.map_eq_some_iff.mp h
    cases heq
    exact recovering_work hstep
  · cases h

theorem workStep_of_next {a : Action} (h : withdrawalsSystem.next c ⟨p, a⟩ = some d) :
    WorkStep c.shared (c.procs p) a d.shared.db (d.procs p) := by
  obtain ⟨s, l, hs, rfl⟩ := System.next_eq_some.mp h
  simpa using work_cases (p := p) hs

/-! ### A row by its id -/

def statusOf (db : TransfersDb) (id : Uuid) : Option WithdrawalStatus :=
  (db.findWithdrawalById id).map WithdrawalRequest.status

def hashOf (db : TransfersDb) (id : Uuid) : Option String :=
  (db.findWithdrawalById id).bind WithdrawalRequest.txHash

/-- The withdrawal that an event is about, and the status it reports. -/
def report : WithdrawalEvent → Uuid × WithdrawalStatus
  | .completed id _ _ _ _ => (id, .completed)
  | .failed id _ _ _ _ _ => (id, .failed)

/-- The statuses that the outbox reports of a withdrawal. -/
def reports (db : TransfersDb) (id : Uuid) : List WithdrawalStatus :=
  db.outbox.filterMap fun event => if (report event).1 = id then some (report event).2 else none

theorem find_of_mem (hunique : UniqueRows db) (h : row ∈ db.withdrawals) :
    db.findWithdrawalById row.id = some row :=
  (lookup_eq_some hunique.ids).mpr ⟨h, rfl⟩

theorem statusOf_of_mem (hunique : UniqueRows db) (h : row ∈ db.withdrawals) :
    statusOf db row.id = some row.status := by
  rw [statusOf, find_of_mem hunique h, Option.map_some]

theorem find_update {set : WithdrawalRequest → WithdrawalRequest}
    (hset : ∀ row, (set row).id = row.id) (key : Uuid) :
    (db.updateWithdrawal id set).findWithdrawalById key =
      (db.findWithdrawalById key).map fun row => if row.id = id then set row else row := by
  refine lookup_map fun row _ => ?_
  split
  · exact hset row
  · rfl

theorem find_insert {terms : WithdrawalTerms} {newId : Uuid}
    (h : db.findWithdrawalById newId = none) (key : Uuid) :
    (db.insertWithdrawal (.create terms newId)).findWithdrawalById key =
      if newId = key then some (.create terms newId) else db.findWithdrawalById key := by
  refine lookup_append_singleton.trans ?_
  by_cases hkey : newId = key
  · subst hkey
    rw [show lookup WithdrawalRequest.id db.withdrawals newId = none from h, Option.none_or,
      if_pos rfl]
    exact if_pos rfl
  · rw [if_neg hkey, show (WithdrawalRequest.create terms newId).id = newId from rfl, if_neg hkey,
      Option.or_none]
    rfl

/-- An update of a row by its id changes the status of that row alone. -/
theorem statusOf_update {set : WithdrawalRequest → WithdrawalRequest}
    (hset : ∀ row, (set row).id = row.id) (key : Uuid) :
    statusOf (db.updateWithdrawal id set) key =
      if key = id then (db.findWithdrawalById key).map fun row => (set row).status
      else statusOf db key := by
  rw [statusOf, find_update hset, Option.map_map]
  cases hfind : db.findWithdrawalById key with
  | none => simp [statusOf, hfind]
  | some row =>
    obtain rfl := (lookup_mem hfind).2
    by_cases hid : row.id = id <;> simp [statusOf, hfind, hid]

theorem hashOf_update {set : WithdrawalRequest → WithdrawalRequest}
    (hset : ∀ row, (set row).id = row.id) (key : Uuid) :
    hashOf (db.updateWithdrawal id set) key =
      if key = id then (db.findWithdrawalById key).bind fun row => (set row).txHash
      else hashOf db key := by
  rw [hashOf, find_update hset]
  cases hfind : db.findWithdrawalById key with
  | none => simp [hashOf, hfind]
  | some row =>
    obtain rfl := (lookup_mem hfind).2
    by_cases hid : row.id = id <;> simp [hashOf, hfind, hid]

theorem reports_insertEvent (event : WithdrawalEvent) :
    reports (db.insertEvent event) id =
      reports db id ++ if (report event).1 = id then [(report event).2] else [] := by
  rw [reports, TransfersDb.insertEvent, List.filterMap_append]
  split_ifs with hid <;> simp [reports, hid]

/-- What a step does to the status of a row and to its events. -/
inductive StatusStep (db db' : TransfersDb) (l l' : Process) (id : Uuid) : Prop
  | same (hstatus : statusOf db' id = statusOf db id) (hreports : reports db' id = reports db id)
  | created (hnone : statusOf db id = none) (hpending : statusOf db' id = some .pending)
      (hhash : hashOf db' id = none) (hreports : reports db' id = reports db id)
  | picked (row : WithdrawalRequest) (hl : l = .idle) (hl' : l' = .executing row .broadcasting)
      (hid : row.id = id) (hpending : statusOf db id = some .pending)
      (hprocessing : statusOf db' id = some .processing) (hreports : reports db' id = reports db id)
  | ended (row : WithdrawalRequest) (status : WithdrawalStatus)
      (hending : ending l = some (row, status)) (hrow : inHand l = row :: inHand l')
      (hid : row.id = id) (hstatus : statusOf db' id = (statusOf db id).map fun _ => status)
      (hreports : reports db' id = reports db id ++ [status])

private theorem statusStep_ended {set : WithdrawalRequest → WithdrawalRequest}
    {event : WithdrawalEvent} {status : WithdrawalStatus} (hset : ∀ row, (set row).id = row.id)
    (hstatus : ∀ row, (set row).status = status) (hevent : report event = (row.id, status))
    (hending : ending l = some (row, status)) (hrow : inHand l = row :: inHand l') (id : Uuid) :
    StatusStep db ((db.updateWithdrawal row.id set).insertEvent event) l l' id := by
  have hupdated := @statusOf_update row.id db set hset id
  have hreports := @reports_insertEvent id (db.updateWithdrawal row.id set) event
  rw [hevent] at hreports
  by_cases hid : row.id = id
  · refine .ended row status hending hrow hid ?_ ?_
    · change statusOf (db.updateWithdrawal row.id set) id = _
      rw [hupdated, if_pos hid.symm, statusOf, Option.map_map]
      exact congrArg (fun f => (db.findWithdrawalById id).map f) (funext hstatus)
    · rw [hreports, if_pos hid]
      rfl
  · refine .same ?_ ?_
    · change statusOf (db.updateWithdrawal row.id set) id = _
      rw [hupdated, if_neg fun h => hid h.symm]
    · rw [hreports, if_neg hid, List.append_nil]
      rfl

theorem status_step (h : WorkStep s l action db' l') (id : Uuid) :
    StatusStep s.db db' l l' id := by
  cases h with
  | @inserted _ _ _ terms newId _ _ hid =>
    have hfind := @find_insert s.db terms newId hid id
    by_cases hnew : newId = id
    · subst hnew
      rw [if_pos rfl] at hfind
      refine .created ?_ ?_ ?_ rfl
      · rw [statusOf, hid, Option.map_none]
      · rw [statusOf, hfind]
        rfl
      · rw [hashOf, hfind]
        rfl
    · refine .same ?_ rfl
      rw [statusOf, hfind, if_neg hnew]
      rfl
  | @picked key row hfind hpending =>
    have hupdated := @statusOf_update key s.db _ keepsRequest_startProcessing.id id
    by_cases hid : id = key
    · subst hid
      refine .picked row.startProcessing rfl rfl (lookup_mem hfind).2 ?_ ?_ rfl
      · rw [statusOf, hfind, Option.map_some, hpending]
      · rw [hupdated, if_pos rfl, hfind]
        rfl
    · exact .same (by rw [hupdated, if_neg hid]) rfl
  | @recorded row txHash _ _ _ =>
    refine .same ?_ rfl
    rw [statusOf_update (keepsRequest_recordTx txHash 0).id]
    split_ifs
    · rfl
    · rfl
  | completed =>
    exact statusStep_ended keepsRequest_complete.id (fun _ => rfl) rfl
      rfl (by rw [inHand_resume]; rfl) id
  | failed =>
    exact statusStep_ended (keepsRequest_fail _).id (fun _ => rfl) rfl
      rfl (by rw [inHand_resume]; rfl) id
  | _ => exact .same rfl rfl

/-- A transaction is recorded by the process that has handed it to the node. -/
theorem hash_step (h : WorkStep s l action db' l') (id : Uuid) :
    hashOf db' id = hashOf s.db id ∨ ∃ row txHash, l = .executing row (.recording txHash) ∧
      unrecorded l' = none ∧ row.id = id ∧
        hashOf db' id = (statusOf s.db id).map fun _ => txHash := by
  cases h with
  | @inserted _ _ _ terms newId _ _ hid =>
    refine Or.inl ?_
    have hfind := @find_insert s.db terms newId hid id
    by_cases hnew : newId = id
    · subst hnew
      rw [if_pos rfl] at hfind
      rw [hashOf, hfind, hashOf, hid]
      rfl
    · rw [hashOf, hfind, if_neg hnew]
      rfl
  | @picked key row hfind hpending =>
    refine Or.inl ?_
    rw [hashOf_update keepsRequest_startProcessing.id]
    split_ifs
    · rfl
    · rfl
  | @recorded row txHash _ _ hl' =>
    rw [hashOf_update (keepsRequest_recordTx txHash 0).id]
    split_ifs with hid
    · refine Or.inr ⟨row, txHash, rfl, ?_, hid.symm, ?_⟩
      · rcases hl' with rfl | ⟨reason, rfl⟩ <;> rfl
      · rw [statusOf, Option.map_map]
        cases s.db.findWithdrawalById id <;> rfl
    · exact Or.inl rfl
  | completed =>
    refine Or.inl ((hashOf_update keepsRequest_complete.id id).trans ?_)
    split_ifs
    · rfl
    · rfl
  | failed =>
    refine Or.inl ((hashOf_update (keepsRequest_fail _).id id).trans ?_)
    split_ifs
    · rfl
    · rfl
  | _ => exact Or.inl rfl

/-- A process keeps what it has in hand or drops a part of it, picks a pending row, or begins
the recovery pass. -/
theorem hands_step (h : WorkStep s l action db' l') :
    (inHand l').Sublist (inHand l) ∨
    (∃ row, l = .idle ∧ l' = .executing row.startProcessing .broadcasting ∧
      s.db.findWithdrawalById row.id = some row ∧ row.status = .pending ∧
      statusOf db' row.id = some .processing) ∨
    (l = .idle ∧ action = .recoverStuckProcessingWithdrawals ∧
      l' = resume s.db.findProcessingWithdrawalsWithTxHash) := by
  have hdropped (row : WithdrawalRequest) (progress : Finalizing)
      (rest : List WithdrawalRequest) :
      (inHand (resume rest)).Sublist (inHand (.finalizing row progress rest)) := by
    rw [inHand_resume]
    exact List.sublist_cons_self _ _
  cases h with
  | bystander hl hl' => exact Or.inl (by rw [hl, hl'])
  | inserted hl hl' => exact Or.inl (by rw [hl, hl'])
  | @picked key row hfind hpending =>
    obtain rfl := (lookup_mem hfind).2
    refine Or.inr (Or.inl ⟨row, rfl, rfl, hfind, hpending, ?_⟩)
    rw [statusOf_update keepsRequest_startProcessing.id, if_pos rfl, hfind]
    rfl
  | recovered => exact Or.inr (Or.inr ⟨rfl, rfl, rfl⟩)
  | recorded hl' =>
    rcases hl' with rfl | ⟨reason, rfl⟩ <;> exact Or.inl (List.Sublist.refl _)
  | undebited => exact Or.inl (hdropped _ _ _)
  | completed => exact Or.inl (hdropped _ _ _)
  | failed => exact Or.inl (hdropped _ _ _)
  | uncompleted => exact Or.inl (hdropped _ _ _)
  | unfailed => exact Or.inl (hdropped _ _ _)
  | skipped =>
    refine Or.inl ?_
    rw [inHand_resume]
    exact List.sublist_cons_self _ _
  | _ => exact Or.inl (List.Sublist.refl _)

/-- A process gets to record an end by the balance call before it: a debit that succeeds, or
an unlock, whatever becomes of it. -/
theorem ending_step {status : WithdrawalStatus} (h : WorkStep s l action db' l')
    (hending : ending l' = some (row, status)) :
    (status = .completed ∧ l.nextCall = some (.debit row) ∧ action = .call .answered ∧
      (BalanceCall.debit row).succeeds s.accounts = true) ∨
    (status = .failed ∧ l.nextCall = some (.refund row) ∧ ∃ delivery, action = .call delivery) := by
  have hnone (hhand : inHand l' = []) : row ∉ inHand l' := hhand ▸ List.not_mem_nil
  have hresume (rest : List WithdrawalRequest) : ending (resume rest) ≠ some (row, status) := by
    rw [ending_resume]
    exact (Option.some_ne_none _).symm
  cases h with
  | bystander hl hl' => exact absurd (inHand_of_ending hending) (hnone hl')
  | inserted hl hl' => exact absurd (inHand_of_ending hending) (hnone hl')
  | debited hsucceeds =>
    cases hending
    exact Or.inl ⟨rfl, rfl, rfl, hsucceeds⟩
  | unlocked =>
    cases hending
    exact Or.inr ⟨rfl, rfl, _, rfl⟩
  | recorded hl' =>
    rcases hl' with rfl | ⟨reason, rfl⟩ <;> cases hending
  | recovered => exact absurd hending (hresume _)
  | undebited => exact absurd hending (hresume _)
  | completed => exact absurd hending (hresume _)
  | failed => exact absurd hending (hresume _)
  | uncompleted => exact absurd hending (hresume _)
  | unfailed => exact absurd hending (hresume _)
  | skipped => exact absurd hending (hresume _)
  | _ => cases hending

/-! ### Rows in hand are stored -/

/-- The configuration after process `p` has crashed. -/
def stopped (c : WithdrawalsConfig) (p : ℕ) : WithdrawalsConfig :=
  ⟨c.shared, Function.update c.procs p .finished⟩

/-- Every process is as before, but the crashed one, which has nothing in hand. -/
theorem stopped_procs (c : WithdrawalsConfig) (p q : ℕ) :
    (q = p ∧ (stopped c p).procs q = .finished) ∨
      (q ≠ p ∧ (stopped c p).procs q = c.procs q) := by
  by_cases hq : q = p
  · exact Or.inl ⟨hq, hq ▸ Function.update_self _ _ _⟩
  · exact Or.inr ⟨hq, Function.update_of_ne hq _ _⟩

theorem inHand_stopped (h : row ∈ inHand ((stopped c p).procs q)) :
    q ≠ p ∧ row ∈ inHand (c.procs q) := by
  rcases stopped_procs c p q with ⟨-, hproc⟩ | ⟨hne, hproc⟩
  · rw [hproc] at h
    exact absurd h List.not_mem_nil
  · exact ⟨hne, hproc ▸ h⟩

theorem nextCall_inHand (h : l.nextCall = some (.debit row) ∨ l.nextCall = some (.refund row)) :
    row ∈ inHand l := by
  unfold Process.nextCall at h
  rcases h with h | h <;> split at h <;> cases h <;> exact List.mem_cons_self

/-- What the processes have in hand, and what their calls in flight are about, is stored. -/
structure HandsInvariant (c : WithdrawalsConfig) : Prop where
  accounts : WellFormed c.shared.accounts
  rows : UniqueRows c.shared.db
  stored : ∀ p, ∀ row ∈ inHand (c.procs p), Stored c.shared row
  calls : ∀ row, .debit row ∈ c.shared.inFlight ∨ .refund row ∈ c.shared.inFlight →
    Stored c.shared row

theorem handsInvariant_initial : HandsInvariant initial where
  accounts := wellFormed_empty
  rows := ⟨keyUnique_nil, keyUnique_nil⟩
  stored _ _ h := absurd h List.not_mem_nil
  calls _ h := h.elim (fun h => absurd h List.not_mem_nil) fun h => absurd h List.not_mem_nil

theorem handsInvariant_step {a : Action} (hinv : HandsInvariant c)
    (hnext : withdrawalsSystem.next c ⟨p, a⟩ = some d) : HandsInvariant d := by
  have hstep := processStep_of_next hnext
  obtain ⟨hunique, hevolves⟩ := rows_step hinv.rows hstep
  refine ⟨(ledger_step hinv.accounts hstep).1, hunique, fun q row hrow => ?_, fun row hcall => ?_⟩
  · by_cases hq : q = p
    · subst hq
      rcases hands_step (workStep_of_next hnext) with
        hsub | ⟨pending, -, hl', hfind, -⟩ | ⟨-, -, hl'⟩
      · exact (hinv.stored q row (hsub.subset hrow)).step hevolves
      · rw [hl'] at hrow
        obtain rfl := List.mem_singleton.mp hrow
        have hstored : Stored c.shared pending.startProcessing :=
          ⟨pending, (lookup_mem hfind).1, rfl, rfl⟩
        exact hstored.step hevolves
      · rw [hl', inHand_resume] at hrow
        have hstored : Stored c.shared row := ⟨row, (List.mem_filter.mp hrow).1, rfl, rfl⟩
        exact hstored.step hevolves
    · rw [System.next_procs_of_ne hnext hq] at hrow
      exact (hinv.stored q row hrow).step hevolves
  · have hold : Stored c.shared row := by
      rcases hcall with hcall | hcall
      · rcases inFlight_step hstep hcall with hold | ⟨hnew, -⟩
        · exact hinv.calls row (Or.inl hold)
        · exact hinv.stored p row (nextCall_inHand (Or.inl hnew))
      · rcases inFlight_step hstep hcall with hold | ⟨hnew, -⟩
        · exact hinv.calls row (Or.inr hold)
        · exact hinv.stored p row (nextCall_inHand (Or.inr hnew))
    exact hold.step hevolves

theorem HandsInvariant.stopped (hinv : HandsInvariant c) (p : ℕ) :
    HandsInvariant (WithdrawalRecovery.stopped c p) where
  accounts := hinv.accounts
  rows := hinv.rows
  stored q row hrow := hinv.stored q row (inHand_stopped hrow).2
  calls := hinv.calls

theorem handsInvariant_next (hinv : HandsInvariant c) (hnext : crashingSystem.next c e = some d) :
    HandsInvariant d := by
  rcases crashing_next hnext with ⟨a, -, -, hnext⟩ | ⟨-, rfl⟩
  · exact handsInvariant_step hinv hnext
  · exact hinv.stopped e.proc

end EtherTrade.WithdrawalRecovery
