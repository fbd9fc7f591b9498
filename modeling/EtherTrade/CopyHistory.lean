import EtherTrade.MasterTradeReplicationSteps

/-!
# The copy history

Rows of `copy_orders_history` stay once they are there. Each copy has at most one, and its
status is one that a replication ends with.
-/

namespace EtherTrade.CopyHistory

open KeyedRows AccountsSchema CopyTradingSchema MasterTradeReplication
open MasterTradeReplicationSteps

variable {s s' : CopyStore} {db db' : CopyTradingDb} {task : ReplicationSideTask}
  {subscriber : CopySubscription} {copying : Copying} {new : NewCopyOrderHistory} {newId : Uuid}
  {copy : Copy} {l l' : Process} {action : Action}

def HasRow (db : CopyTradingDb) (copy : Copy) : Prop :=
  ∃ row ∈ db.copyOrdersHistory, row.copy = copy

/-- The statuses that a replication ends with. -/
def endStatuses : List CopyOrderStatus := [.completed, .skipped, .failed]

/-- The copy has one row, and its status is one that a replication ends with. -/
def HasOneRow (db : CopyTradingDb) (copy : Copy) : Prop :=
  ∃ row, db.copyOrdersHistory.filter (fun row => row.copy = copy) = [row] ∧
    row.status ∈ endStatuses

/-- What holds of every history: the unique index, and the statuses of rows. -/
structure WellKept (db : CopyTradingDb) : Prop where
  unique : KeyUnique CopyOrderHistory.copy db.copyOrdersHistory
  ended : ∀ row ∈ db.copyOrdersHistory, row.status ∈ endStatuses

theorem WellKept.hasOneRow (hdb : WellKept db) (h : HasRow db copy) : HasOneRow db copy := by
  obtain ⟨row, hrow, rfl⟩ := h
  exact ⟨row, filter_eq_of_lookup hdb.unique ((lookup_eq_some hdb.unique).mpr ⟨hrow, rfl⟩),
    hdb.ended row hrow⟩

theorem toRow_copy {row : CopyOrderHistory} (h : new.toRow newId = some row) :
    row.copy = (new.subscriptionId, new.masterTradeId) ∧ row.status = new.status := by
  simp only [NewCopyOrderHistory.toRow, Option.bind_eq_bind, Option.bind_eq_some_iff,
    Option.pure_def, Option.some.injEq] at h
  obtain ⟨quantity, -, price, -, rfl⟩ := h
  exact ⟨rfl, rfl⟩

/-- A row of the history has the id. -/
def idTaken (db : CopyTradingDb) (newId : Uuid) : Bool :=
  (lookup CopyOrderHistory.id db.copyOrdersHistory newId).isSome

/-- An insert finds its id or the copy in the history, or adds its row. -/
theorem createHistory_cases (h : db.createHistory new newId = some db') :
    (db' = db ∧ (idTaken db newId = true ∨
        HasRow db (new.subscriptionId, new.masterTradeId))) ∨
      ∃ row, new.toRow newId = some row ∧
        lookup CopyOrderHistory.copy db.copyOrdersHistory row.copy = none ∧
          db' = { db with copyOrdersHistory := db.copyOrdersHistory ++ [row] } := by
  obtain ⟨row, hrow, hdb⟩ := Option.map_eq_some_iff.mp h
  split at hdb
  · next hfound =>
    refine Or.inl ⟨hdb.symm, (Bool.or_eq_true _ _ ▸ hfound).imp_right fun hcopy => ?_⟩
    obtain ⟨old, hold⟩ := Option.isSome_iff_exists.mp hcopy
    obtain ⟨hmem, hcopy⟩ := lookup_mem hold
    exact ⟨old, hmem, hcopy.trans (toRow_copy hrow).1⟩
  · next hnew =>
    rw [Bool.or_eq_true, not_or] at hnew
    exact Or.inr ⟨row, hrow, by simpa using hnew.2, hdb.symm⟩

/-- After an insert under an id of its own, the copy has a row. -/
theorem hasRow_createHistory (h : db.createHistory new newId = some db')
    (hid : idTaken db newId = true → HasRow db (new.subscriptionId, new.masterTradeId)) :
    HasRow db' (new.subscriptionId, new.masterTradeId) := by
  rcases createHistory_cases h with ⟨rfl, hrow⟩ | ⟨row, hrow, -, rfl⟩
  · exact hrow.elim hid id
  · exact ⟨row, List.mem_append_right _ List.mem_cons_self, (toRow_copy hrow).1⟩

theorem wellKept_createHistory (hdb : WellKept db) (hstatus : new.status ∈ endStatuses)
    (h : db.createHistory new newId = some db') : WellKept db' := by
  rcases createHistory_cases h with ⟨rfl, -⟩ | ⟨row, hrow, hnew, rfl⟩
  · exact hdb
  · refine ⟨keyUnique_append_singleton hdb.unique hnew, fun r hr => ?_⟩
    rcases List.mem_append.mp hr with hr | hr
    · exact hdb.ended r hr
    · obtain rfl := List.mem_singleton.mp hr
      rwa [(toRow_copy hrow).2]

theorem pendingRecord_copy (h : pendingRecord task subscriber copying = some new) :
    (new.subscriptionId, new.masterTradeId) = (subscriber.id, task.tradeId) ∧
      new.status ∈ endStatuses := by
  cases copying with
  | skipping quantity =>
    cases h
    exact ⟨rfl, by simp [endStatuses, record]⟩
  | completing request followerOrderId =>
    cases h
    exact ⟨rfl, by simp [endStatuses, record]⟩
  | failing request reason =>
    cases h
    exact ⟨rfl, by simp [endStatuses, record]⟩
  | _ => cases h

/-- The worker with the number inserts a row. -/
def Inserts (action : Action) (i : ℕ) : Prop :=
  ∃ newId, action = .worker i (.insert newId) ∨ action = .worker i (.insertUnacknowledged newId)

theorem Inserts.worker {i : ℕ} (h : Inserts action i) :
    ∃ workerAction, action = .worker i workerAction := by
  obtain ⟨newId, rfl | rfl⟩ := h
  · exact ⟨_, rfl⟩
  · exact ⟨_, rfl⟩

/-- A worker that holds its lock changes the database only with an insert. -/
theorem copyStep_db {masterBalance : DecimalNumbers.BigNumber} {copying' : Copying}
    {workerAction : WorkerAction} {i : ℕ}
    (h : copyStep s task masterBalance subscriber copying workerAction = some (s', copying')) :
    s'.db = s.db ∨ Inserts (.worker i workerAction) i := by
  have heffect := copyStep_cases h
  cases workerAction with
  | insert newId => exact Or.inr ⟨newId, Or.inl rfl⟩
  | insertUnacknowledged newId => exact Or.inr ⟨newId, Or.inr rfl⟩
  | fail message =>
    refine Or.inl ?_
    cases copying with
    | sizing =>
      simp only [copyStep] at h
      split at h <;> cases h
      rfl
    | releasing => cases h
    | _ =>
      cases h
      rfl
  | _ =>
    cases heffect with
    | inserted hrecord => cases copying <;> cases hrecord <;> cases h
    | _ => exact Or.inl rfl

/-- What a step does to the history: nothing, or the insert of a worker. -/
theorem history_step (hstep : step s l action = some (s', l')) :
    s'.db.copyOrdersHistory = s.db.copyOrdersHistory ∨
      ∃ i task worker lockToken copying new newId, Inserts action i ∧
        workerOf l i = some (task, worker) ∧ worker.progress = .holding lockToken copying ∧
          pendingRecord task worker.subscriber copying = some new ∧
            s.db.createHistory new newId = some s'.db := by
  have heffect := step_cases hstep
  cases heffect with
  | accepted payload => exact Or.inl rfl
  | world hhistory => exact Or.inl hhistory
  | orders hnext => exact Or.inl rfl
  | stopped => exact Or.inl rfl
  | message heffect =>
    cases heffect with
    | marked =>
      refine Or.inl ?_
      simp only [markProcessed, setDb, CopyTradingDb.markProcessed]
      split <;> rfl
    | _ => exact Or.inl rfl
  | @worker _ _ _ _ _ i worker _ _ _ hpoint hworker hreplicate =>
    have heffect := replicateStep_cases hreplicate
    generalize hprogress : worker.progress = progress at heffect hreplicate
    cases heffect with
    | locked => exact Or.inl rfl
    | refused => exact Or.inl rfl
    | released => exact Or.inl rfl
    | copied heffect =>
      rcases copyStep_db (copyStep_of_holding hreplicate).2 with hsame | hinserts
      · exact Or.inl (congrArg CopyTradingDb.copyOrdersHistory hsame)
      · cases heffect with
        | inserted hrecord hcreate =>
          refine Or.inr ⟨i, _, worker, _, _, _, _, hinserts, ?_, hprogress, hrecord, hcreate⟩
          simp only [workerOf, hpoint, hworker, Option.map_some]
        | _ => exact Or.inl rfl

theorem wellKept_step (hdb : WellKept s.db) (hstep : step s l action = some (s', l')) :
    WellKept s'.db := by
  rcases history_step hstep with hsame | ⟨_, _, _, _, _, _, _, -, -, -, hrecord, hcreate⟩
  · exact ⟨by rw [hsame]; exact hdb.unique, by rw [hsame]; exact hdb.ended⟩
  · exact wellKept_createHistory hdb (pendingRecord_copy hrecord).2 hcreate

/-- Rows stay. -/
theorem hasRow_step (hrow : HasRow s.db copy) (hstep : step s l action = some (s', l')) :
    HasRow s'.db copy := by
  obtain ⟨row, hmem, hcopy⟩ := hrow
  refine ⟨row, ?_, hcopy⟩
  rcases history_step hstep with hsame | ⟨_, _, _, _, _, _, _, -, -, -, -, hcreate⟩
  · rwa [hsame]
  · rcases createHistory_cases hcreate with ⟨hdb, -⟩ | ⟨new, -, -, hdb⟩ <;> rw [hdb]
    · exact hmem
    · exact List.mem_append_left _ hmem

end EtherTrade.CopyHistory
