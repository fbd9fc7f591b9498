import EtherTrade.CopyTradingServiceSteps
import EtherTrade.ProcessSums
import Mathlib.Tactic.Linarith

/-!
# Counters of copiers

A call changes the status of a subscription and then the counter of its master, each by a
statement of its own. Where a status changes only if it is as the call has read it, no call
fails between its statements, and no counter is decremented at zero, counters and pending
changes account for the active subscriptions.
-/

namespace EtherTrade.CopierCountLaws

open KeyedRows AccountsSchema CopyTradingSchema InterleavedProcesses CopyTradingService
open CopyTradingServiceSteps ProcessSums
open CopiedOrders (Known)

variable {s s' : ServiceStore} {l l' : Process} {action : Action} {db : CopyTradingDb}
  {request : CreateSubscriptionRequest} {sub row : CopySubscription} {masterId : Uuid}
  {c d : ServiceConfig} {e : Event Action} {es : List (Event Action)}

/-! ### Counts -/

/-- The counter of a master. -/
def copiers (s : ServiceStore) (masterId : Uuid) : ℤ :=
  ((findMaster s masterId).map MasterTrader.totalCopiers).getD 0

/-- The number of its active subscriptions. -/
def activeCopiers (db : CopyTradingDb) (masterId : Uuid) : ℤ :=
  (db.findActiveByMaster masterId).length

/-- What one subscription adds to the count. -/
def countOne (masterId : Uuid) (row : CopySubscription) : ℤ :=
  if row.masterId = masterId ∧ row.status = .active then 1 else 0

theorem activeCopiers_eq_sum (db : CopyTradingDb) (masterId : Uuid) :
    activeCopiers db masterId = (db.copySubscriptions.map (countOne masterId)).sum := by
  rw [activeCopiers, CopyTradingDb.findActiveByMaster]
  induction db.copySubscriptions with
  | nil => rfl
  | cons row rows ih =>
    rw [List.map_cons, List.sum_cons, ← ih, countOne, List.filter_cons]
    by_cases h : row.masterId = masterId ∧ row.status = .active
    · simp [h, add_comm]
    · simp [h]

/-- What a call has yet to add to the counter of a master. -/
def pendingFor (masterId : Uuid) (l : Process) : ℤ :=
  match pendingCopier l with
  | some (id, delta) => if id = masterId then delta else 0
  | none => 0

theorem pendingFor_none (h : pendingCopier l = none) : pendingFor masterId l = 0 := by
  rw [pendingFor, h]

/-- What the change of one subscription does to a count. -/
theorem activeCopiers_setSubscription {f : CopySubscription → CopySubscription}
    (hids : KeyUnique CopySubscription.id db.copySubscriptions)
    (hrow : row ∈ db.copySubscriptions) (masterId : Uuid) :
    activeCopiers (db.setSubscription row.id f) masterId =
      activeCopiers db masterId - countOne masterId row + countOne masterId (f row) := by
  rw [activeCopiers_eq_sum, activeCopiers_eq_sum]
  exact sum_map_update hids hrow f (countOne masterId)

theorem activeCopiers_create {new : CopySubscription} {db' : CopyTradingDb}
    (h : db.createSubscription new = some db') (masterId : Uuid) :
    activeCopiers db' masterId = activeCopiers db masterId + countOne masterId new := by
  unfold CopyTradingDb.createSubscription at h
  split at h <;> cases h
  rw [activeCopiers_eq_sum, activeCopiers_eq_sum, List.map_append, List.sum_append,
    List.map_singleton, List.sum_singleton]

/-! ### The condition -/

/-- The next statement of the call changes a subscription. -/
def Writes : Process → Prop
  | .creating _ (.writing _) => True
  | .cancelling _ (.terminating _) => True
  | _ => False

/-- A status changes only if it is as the call has read it, a call that writes learns of it
and goes on to its counter, and a counter that is decremented is not at zero. -/
structure KeepsCount (c : ServiceConfig) (e : Event Action) : Prop where
  reactivates : ∀ request sub, c.procs e.proc = .creating request (.writing (some sub)) →
    e.action ≠ .fail → ∀ row ∈ c.shared.db.copySubscriptions, row.id = sub.id →
      row.status ≠ .active
  terminates : ∀ request sub, c.procs e.proc = .cancelling request (.terminating sub) →
    e.action ≠ .fail → ∀ row ∈ c.shared.db.copySubscriptions, row.id = sub.id →
      row.status = .active
  learns : Writes (c.procs e.proc) → acknowledged e.action = true
  goesOn : pendingCopier (c.procs e.proc) ≠ none → e.action ≠ .fail
  positive : ∀ request sub updated, c.procs e.proc = .cancelling request (.decrementing sub updated) →
    0 < copiers c.shared sub.masterId

/-! ### Steps -/

theorem copiers_incrementCopiers {delta : ℤ} (id : Uuid) :
    copiers (incrementCopiers s masterId delta) id =
      if id = masterId ∧ (findMaster s id).isSome then max 0 (copiers s id + delta)
      else copiers s id := by
  rw [copiers, lookup_incrementCopiers, copiers]
  cases hfound : findMaster s id with
  | none => simp
  | some master =>
    have hid : master.id = id := (lookup_mem hfound).2
    simp only [Option.map_some, Option.getD_some, hid, Option.isSome_some, and_true]
    split <;> rfl

theorem copiers_register {id userId : Uuid} {minDeposit : ℤ} (hid : findMaster s id = none)
    (masterId : Uuid) :
    copiers { s with masters := s.masters ++ [⟨id, userId, minDeposit, 0, true⟩] } masterId =
      copiers s masterId := by
  simp only [copiers, findMaster, lookup_append_singleton]
  by_cases hsame : id = masterId
  · subst hsame
    have hnone : lookup MasterTrader.id s.masters id = none := hid
    simp [hnone]
  · simp [hsame]

/-- Counters are not negative, and with the pending changes they account for the active
subscriptions. -/
structure Balanced (c : ServiceConfig) : Prop where
  consistent : Consistent c
  masterIds : KeyUnique MasterTrader.id c.shared.masters
  nonneg : ∀ master ∈ c.shared.masters, 0 ≤ master.totalCopiers
  sums : ∀ masterId, SumsTo (pendingFor masterId) c.procs
    (activeCopiers c.shared.db masterId - copiers c.shared masterId)

theorem copiers_nonneg (h : ∀ master ∈ s.masters, 0 ≤ master.totalCopiers) (masterId : Uuid) :
    0 ≤ copiers s masterId := by
  rw [copiers]
  cases hfound : findMaster s masterId with
  | none => exact le_rfl
  | some master => exact h master (lookup_mem hfound).1

/-- A pending change is one more copier, or one less of a counter that is not at zero. -/
theorem pending_cases (hc : Consistent c) (hguard : KeepsCount c e) {delta : ℤ}
    (h : pendingCopier (c.procs e.proc) = some (masterId, delta)) :
    (findMaster c.shared masterId).isSome ∧
      (delta = 1 ∨ delta = -1 ∧ 0 < copiers c.shared masterId) := by
  have hknows := hc.processes e.proc
  generalize hl : c.procs e.proc = l at h hknows
  cases l with
  | creating request progress =>
    cases progress with
    | incrementing subscription =>
      cases h
      exact ⟨hknows, Or.inl rfl⟩
    | _ => cases h
  | cancelling request progress =>
    cases progress with
    | decrementing sub updated =>
      cases h
      obtain ⟨row, hrow, -, hfollows⟩ := hknows
      have hmaster : row.masterId = sub.masterId := congrArg Prod.snd hfollows
      have hknown := hc.known row hrow
      rw [hmaster] at hknown
      exact ⟨hknown, Or.inr ⟨rfl, hguard.positive _ _ _ hl⟩⟩
    | _ => cases h
  | _ => cases h

/-- A new subscription is pending for the counter. -/
theorem counts_inserted {newId : Uuid} (hlearns : acknowledged action = true)
    (hcreate : s.db.createSubscription (newSubscription request newId) = some db)
    (masterId : Uuid) :
    activeCopiers (setDb s db).db masterId - copiers (setDb s db) masterId =
      activeCopiers s.db masterId - copiers s masterId -
        pendingFor masterId (.creating request (.writing none)) +
          pendingFor masterId (afterWrite request action (newSubscription request newId)) := by
  have hafter : pendingFor masterId (afterWrite request action (newSubscription request newId)) =
      countOne masterId (newSubscription request newId) := by
    simp [pendingFor, afterWrite, hlearns, pendingCopier, countOne, newSubscription]
  have hcopiers : copiers (setDb s db) masterId = copiers s masterId := rfl
  have hactive : activeCopiers (setDb s db).db masterId = _ := activeCopiers_create hcreate masterId
  rw [hactive, hcopiers, pendingFor_none rfl, hafter]
  ring

/-- So is one that becomes active again. -/
theorem counts_reactivated (hids : KeyUnique CopySubscription.id s.db.copySubscriptions)
    (hlearns : acknowledged action = true) {old : CopySubscription}
    (hold : old ∈ s.db.copySubscriptions) (hid : old.id = sub.id)
    (hmaster : old.masterId = request.masterId) (hstatus : old.status ≠ .active)
    (masterId : Uuid) :
    activeCopiers (s.db.reactivateSubscription sub.id request.allocatedBalance.units
        (maxSlippage request)) masterId - copiers s masterId =
      activeCopiers s.db masterId - copiers s masterId -
        pendingFor masterId (.creating request (.writing (some sub))) +
          pendingFor masterId (afterWrite request action row) := by
  have hbefore : countOne masterId old = 0 := if_neg fun h => hstatus h.2
  have hafter : pendingFor masterId (afterWrite request action row) =
      if request.masterId = masterId then 1 else 0 := by
    simp [pendingFor, afterWrite, hlearns, pendingCopier]
  have hactive := activeCopiers_setSubscription
    (f := fun row => { row with
      status := .active
      allocatedBalance := request.allocatedBalance.units
      maxSlippagePercent := maxSlippage request }) hids hold masterId
  rw [hid, hbefore, countOne] at hactive
  simp only [hmaster, and_true] at hactive
  change activeCopiers (s.db.setSubscription sub.id _) masterId - _ = _
  rw [hactive, hafter, pendingFor_none rfl]
  ring

/-- A subscription that is terminated is pending to be taken from the counter. -/
theorem counts_terminated (hids : KeyUnique CopySubscription.id s.db.copySubscriptions)
    {cancel : CancelSubscriptionRequest} {updated old : CopySubscription}
    (hold : old ∈ s.db.copySubscriptions) (hid : old.id = sub.id)
    (hmaster : old.masterId = sub.masterId) (hstatus : old.status = .active) (masterId : Uuid) :
    activeCopiers (s.db.updateStatus sub.id .terminated) masterId - copiers s masterId =
      activeCopiers s.db masterId - copiers s masterId -
        pendingFor masterId (.cancelling cancel (.terminating sub)) +
          pendingFor masterId (.cancelling cancel (.decrementing sub updated)) := by
  have hactive := activeCopiers_setSubscription
    (f := fun row => { row with status := .terminated }) hids hold masterId
  simp only [hid, countOne, hstatus, hmaster, and_true, reduceCtorEq, and_false,
    if_false] at hactive
  have hafter : pendingFor masterId (.cancelling cancel (.decrementing sub updated)) =
      if sub.masterId = masterId then -1 else 0 := rfl
  change activeCopiers (s.db.setSubscription sub.id _) masterId - _ = _
  rw [hactive, hafter, pendingFor_none rfl]
  by_cases hsame : sub.masterId = masterId
  · rw [if_pos hsame, if_pos hsame]
    ring
  · rw [if_neg hsame, if_neg hsame]
    ring

/-- A pending change goes into the counter in full. -/
theorem counts_counted {changed : Uuid} {delta : ℤ} (hbefore : pendingCopier l = some (changed, delta))
    (hafter : pendingCopier l' = none) (hfound : (findMaster s changed).isSome)
    (hnonneg : 0 ≤ copiers s changed) (hdelta : delta = 1 ∨ delta = -1 ∧ 0 < copiers s changed)
    (masterId : Uuid) :
    activeCopiers (incrementCopiers s changed delta).db masterId -
        copiers (incrementCopiers s changed delta) masterId =
      activeCopiers s.db masterId - copiers s masterId - pendingFor masterId l +
        pendingFor masterId l' := by
  have hown : pendingFor masterId l = if changed = masterId then delta else 0 := by
    rw [pendingFor, hbefore]
  have hdb : (incrementCopiers s changed delta).db = s.db := rfl
  rw [copiers_incrementCopiers, hown, pendingFor_none hafter, hdb]
  by_cases hsame : masterId = changed
  · subst hsame
    rw [if_pos ⟨rfl, hfound⟩, if_pos rfl]
    rcases hdelta with rfl | ⟨rfl, hpositive⟩
    · rw [max_eq_right (by omega)]
      ring
    · rw [max_eq_right (by omega)]
      ring
  · rw [if_neg fun h => hsame h.1, if_neg (Ne.symm hsame)]
    ring

/-- One step moves counts, counters and pending changes together. -/
theorem counts_step (hc : Balanced c) (hguard : KeepsCount c e)
    (h : ServiceStep c.shared (c.procs e.proc) e.action s' l') (masterId : Uuid) :
    activeCopiers s'.db masterId - copiers s' masterId =
      activeCopiers c.shared.db masterId - copiers c.shared masterId -
        pendingFor masterId (c.procs e.proc) + pendingFor masterId l' := by
  have hknows := hc.consistent.processes e.proc
  generalize hl : c.procs e.proc = l at h hknows
  generalize haction : e.action = action at h
  cases h with
  | quiet hmasters hdb hafter hbefore =>
    have hnone : pendingCopier l = none := by
      rcases hbefore with hnone | hfail
      · exact hnone
      · by_contra hpending
        exact hguard.goesOn (hl ▸ hpending) (haction.trans hfail)
    have hcopiers : copiers s' masterId = copiers c.shared masterId := by
      rw [copiers, findMaster, hmasters, copiers, findMaster]
    rw [hdb, hcopiers, pendingFor_none hnone, pendingFor_none hafter, sub_zero, add_zero]
  | registered hid => rw [copiers_register hid, pendingFor_none rfl, sub_zero, add_zero]
  | @inserted request newId _ db hcreate hnot =>
    have hlearns : acknowledged action = true := haction ▸ hguard.learns (by rw [hl]; trivial)
    exact counts_inserted hlearns hcreate masterId
  | @reactivated request sub row _ hnot =>
    have hlearns : acknowledged action = true := haction ▸ hguard.learns (by rw [hl]; trivial)
    obtain ⟨⟨old, hold, hid, hfollows⟩, hrequest⟩ := hknows.2 sub rfl
    have hstatus := hguard.reactivates request sub hl (haction ▸ hnot) old hold hid
    have hmaster : old.masterId = request.masterId := congrArg Prod.snd (hfollows.trans hrequest)
    exact counts_reactivated hc.consistent.ids hlearns hold hid hmaster hstatus masterId
  | @terminated request sub _ cancelling hnot hnext =>
    have hlearns : acknowledged action = true := haction ▸ hguard.learns (by rw [hl]; trivial)
    rw [hlearns] at hnext
    obtain ⟨updated, rfl⟩ := hnext
    obtain ⟨old, hold, hid, hfollows⟩ := hknows
    have hstatus := hguard.terminates request sub hl (haction ▸ hnot) old hold hid
    have hmaster : old.masterId = sub.masterId := congrArg Prod.snd hfollows
    exact counts_terminated hc.consistent.ids hold hid hmaster hstatus masterId
  | @counted _ _ _ changed delta hbefore hafter =>
    obtain ⟨hfound, hdelta⟩ := pending_cases hc.consistent hguard (hl ▸ hbefore)
    exact counts_counted hbefore hafter hfound (copiers_nonneg hc.nonneg changed) hdelta masterId

theorem masters_step (h : ServiceStep s l action s' l')
    (hids : KeyUnique MasterTrader.id s.masters)
    (hnonneg : ∀ master ∈ s.masters, 0 ≤ master.totalCopiers) :
    KeyUnique MasterTrader.id s'.masters ∧ ∀ master ∈ s'.masters, 0 ≤ master.totalCopiers := by
  cases h with
  | quiet hmasters =>
    rw [hmasters]
    exact ⟨hids, hnonneg⟩
  | registered hid =>
    refine ⟨keyUnique_append_singleton hids hid, fun master hmaster => ?_⟩
    rcases List.mem_append.mp hmaster with hold | hnew
    · exact hnonneg master hold
    · obtain rfl := List.mem_singleton.mp hnew
      exact le_rfl
  | @counted _ _ _ masterId delta =>
    refine ⟨keyUnique_map hids fun master _ => ?_, fun master hmaster => ?_⟩
    · split <;> rfl
    · obtain ⟨old, hold, rfl⟩ := List.mem_map.mp hmaster
      split
      · exact le_max_left _ _
      · exact hnonneg old hold
  | _ => exact ⟨hids, hnonneg⟩

theorem balanced_next (hc : Balanced c) (hguard : KeepsCount c e)
    (hnext : copyTradingSystem.next c e = some d) : Balanced d := by
  have hconsistent := consistent_next hc.consistent hnext
  obtain ⟨s', l', hstep, rfl⟩ := System.next_eq_some.mp hnext
  have hservice : ServiceStep c.shared (c.procs e.proc) e.action s' l' := step_cases hstep
  obtain ⟨hids, hnonneg⟩ := masters_step hservice hc.masterIds hc.nonneg
  refine ⟨hconsistent, hids, hnonneg, fun masterId => ?_⟩
  have hsum := (hc.sums masterId).update e.proc l'
  rwa [← counts_step hc hguard hservice masterId] at hsum

theorem balanced_initial : Balanced initial where
  consistent := consistent_initial
  masterIds := keyUnique_nil
  nonneg _ hmaster := absurd hmaster List.not_mem_nil
  sums _ := sumsTo_zero fun _ => rfl

/-! ### Runs -/

def inProgress : Process → Bool
  | .idle => false
  | .creating _ (.returned _) => false
  | .creating _ (.thrown _) => false
  | .cancelling _ (.returned _) => false
  | .cancelling _ (.thrown _) => false
  | .answered _ => false
  | _ => true

/-- Each counter is the number of active subscriptions of its master. -/
def CopiersCounted (s : ServiceStore) : Prop :=
  ∀ master ∈ s.masters, master.totalCopiers = (s.db.findActiveByMaster master.id).length

theorem pendingFor_ended (h : inProgress l = false) (masterId : Uuid) : pendingFor masterId l = 0 := by
  cases l with
  | creating request progress =>
    cases progress with
    | incrementing subscription => cases h
    | _ => rfl
  | cancelling request progress =>
    cases progress with
    | decrementing sub updated => cases h
    | _ => rfl
  | _ => rfl

/-- In a run whose steps keep the count, counters are right whenever no call is in
progress. -/
theorem copiers_counted (es : List (Event Action)) (d : ServiceConfig)
    (h : copyTradingSystem.Run KeepsCount initial es d) (hrest : ∀ p, inProgress (d.procs p) = false) :
    CopiersCounted d.shared := by
  have hc : Balanced d := h.invariant balanced_initial fun _ _ _ hc hguard hnext =>
    balanced_next hc hguard hnext
  intro master hmaster
  have hzero := (hc.sums master.id).eq_zero fun p => pendingFor_ended (hrest p) master.id
  have hfound : findMaster d.shared master.id = some master :=
    (lookup_eq_some hc.masterIds).mpr ⟨hmaster, rfl⟩
  rw [copiers, hfound, Option.map_some, Option.getD_some] at hzero
  exact (sub_eq_zero.mp hzero).symm

/-! ### Runs of one master -/

/-- The condition, checked on one transition. -/
def keepsCount (t : System.Transition ServiceStore Process Action) : Bool :=
  let rows := t.before.shared.db.copySubscriptions
  match t.before.procs t.event.proc with
  | .creating _ (.writing existingSub) =>
    (t.event.action = .fail || existingSub.all fun sub =>
      rows.all fun row => row.id ≠ sub.id || row.status ≠ .active) &&
        acknowledged t.event.action
  | .cancelling _ (.terminating sub) =>
    (t.event.action = .fail || rows.all fun row => row.id ≠ sub.id || row.status = .active) &&
      acknowledged t.event.action
  | .creating _ (.incrementing _) => t.event.action ≠ .fail
  | .cancelling _ (.decrementing sub _) =>
    t.event.action ≠ .fail && 0 < copiers t.before.shared sub.masterId
  | _ => true

theorem keepsCount_spec {t : System.Transition ServiceStore Process Action}
    (h : keepsCount t = true) : KeepsCount t.before t.event := by
  unfold keepsCount at h
  constructor
  · intro request sub hproc hnot row hrow hid
    simp only [hproc, hnot, decide_false, Bool.false_or, Option.all_some, Bool.and_eq_true,
      List.all_eq_true] at h
    have hstatus := h.1 row hrow
    simpa [hid] using hstatus
  · intro request sub hproc hnot row hrow hid
    simp only [hproc, hnot, decide_false, Bool.false_or, Bool.and_eq_true,
      List.all_eq_true] at h
    have hstatus := h.1 row hrow
    simpa [hid] using hstatus
  · intro hwrites
    generalize t.before.procs t.event.proc = l at h hwrites
    cases l with
    | creating request progress =>
      cases progress with
      | writing existingSub => exact (Bool.and_eq_true_iff.mp h).2
      | _ => exact hwrites.elim
    | cancelling request progress =>
      cases progress with
      | terminating sub => exact (Bool.and_eq_true_iff.mp h).2
      | _ => exact hwrites.elim
    | _ => exact hwrites.elim
  · intro hpending hfail
    generalize t.before.procs t.event.proc = l at h hpending
    cases l with
    | creating request progress =>
      cases progress with
      | incrementing subscription => simp [hfail] at h
      | _ => exact hpending rfl
    | cancelling request progress =>
      cases progress with
      | decrementing sub updated => simp [hfail] at h
      | _ => exact hpending rfl
    | _ => exact hpending rfl
  · intro request sub updated hproc
    simp only [hproc, Bool.and_eq_true, decide_eq_true_eq] at h
    exact h.2

/-- A process does one action after the other. -/
def perform (p : ℕ) (actions : List Action) : List (Event Action) :=
  actions.map fun action => ⟨p, action⟩

/-- A user has a balance, and subscribes to a master. -/
def subscribed (p : ℕ) (follower id : Uuid) : List (Event Action) :=
  perform 9 [.setBalance follower 100] ++
    perform p (.createSubscription ⟨follower, "m", ⟨"0.00000100", 100⟩, none⟩ ::
      List.replicate 6 .statement ++ [.insert id, .statement])

def register : List (Event Action) := perform 9 [.registerMaster "m" "master" 10]

/-- One of two followers cancels. -/
def cancelledOnce : List (Event Action) :=
  register ++ subscribed 0 "first" "s" ++ subscribed 1 "second" "t" ++
    perform 2 (.cancelSubscription ⟨"s", "first"⟩ :: List.replicate 3 .statement)

/-- The counter of the master, the number of its active subscriptions, and whether calls are
in progress. -/
def counts (c : ServiceConfig) : ℤ × ℤ × Bool :=
  (copiers c.shared "m", activeCopiers c.shared.db "m",
    (List.range 10).any fun p => inProgress (c.procs p))

/-- No process of the run is in progress, and no other has started. -/
theorem rest_of_counts (hexec : copyTradingSystem.exec initial es = some d)
    (hprocs : es.all (fun e => e.proc < 10) = true) {copiers active : ℤ}
    (h : counts d = (copiers, active, false)) (p : ℕ) : inProgress (d.procs p) = false := by
  by_cases hp : p < 10
  · have hany : ((List.range 10).any fun p => inProgress (d.procs p)) = false :=
      congrArg (fun counts => counts.2.2) h
    simpa using List.any_eq_false.mp hany p (List.mem_range.mpr hp)
  · rw [System.exec_procs_of_le hexec hprocs (Nat.not_lt.mp hp)]
    rfl

theorem cancelledOnce_executes :
    (copyTradingSystem.exec initial cancelledOnce).map counts = some (1, 1, false) ∧
      (copyTradingSystem.transitions initial cancelledOnce).all keepsCount = true := by
  decide +kernel

theorem copiers_counted_cancelledOnce : ∃ d,
    copyTradingSystem.exec initial cancelledOnce = some d ∧ counts d = (1, 1, false) ∧
      CopiersCounted d.shared := by
  obtain ⟨d, hexec, hcounts⟩ := Option.map_eq_some_iff.mp cancelledOnce_executes.1
  exact ⟨d, hexec, hcounts, copiers_counted cancelledOnce d
    (.of_check hexec cancelledOnce_executes.2 fun _ => keepsCount_spec)
    (rest_of_counts hexec (by decide) hcounts)⟩

/-- The cancellation is sent twice, and both calls read the subscription as active. -/
def cancelledTwice : List (Event Action) :=
  register ++ subscribed 0 "first" "s" ++ subscribed 1 "second" "t" ++
    perform 2 [.cancelSubscription ⟨"s", "first"⟩, .statement] ++
    perform 3 [.cancelSubscription ⟨"s", "first"⟩, .statement] ++
    perform 2 [.statement, .statement] ++ perform 3 [.statement, .statement]

theorem cancelledTwice_executes : (copyTradingSystem.exec initial cancelledTwice).map
    (fun c => (c.shared.masters, counts c)) =
      some ([⟨"m", "master", 10, 0, true⟩], (0, 1, false)) := by
  decide +kernel

/-- The master has a copier, and its counter says that there is none. -/
theorem copiers_miscounted_cancelledTwice : ¬∀ es d, copyTradingSystem.exec initial es = some d →
    (∀ p, inProgress (d.procs p) = false) → CopiersCounted d.shared := by
  intro hall
  obtain ⟨d, hexec, hd⟩ := Option.map_eq_some_iff.mp cancelledTwice_executes
  obtain ⟨hmasters, hcounts⟩ := Prod.mk.inj hd
  have hcounted := hall cancelledTwice d hexec (rest_of_counts hexec (by decide) hcounts)
    ⟨"m", "master", 10, 0, true⟩ (by rw [hmasters]; exact List.mem_singleton_self _)
  have hactive : activeCopiers d.shared.db "m" = 1 := congrArg (fun counts => counts.2.1) hcounts
  exact absurd (hcounted.trans hactive) (by decide)

end EtherTrade.CopierCountLaws
