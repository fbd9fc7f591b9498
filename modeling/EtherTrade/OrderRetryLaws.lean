import EtherTrade.OrderIdempotencyLaws

/-!
# Retries of createOrder

A record that has failed or expired keeps its scope in the unique index. Over every
interleaving, a later call with its key never gets past the insert of a record of its own.
-/

namespace EtherTrade.OrderRetryLaws

open KeyedRows AccountsSchema OrdersSchema InterleavedProcesses ResourceLocks StatusCodes
open OrdersTransactions OrdersTransactionSteps OrderFillLaws OrderIdempotencyLaws

variable {p q : ℕ} {s s' : Shared} {l l' : Process} {action : Action}
  {c d : OrdersConfig} {e : Event Action} {es fs : List (Event Action)}
  {r : IdempotencyRecord} {request : ValidRequest} {recordId : Uuid}

/-! ### Who settles a record -/

/-- The record that a call has inserted and not settled. -/
def recordOf : Process → Option Uuid
  | .creating _ (.locking recordId) => some recordId
  | .creating _ (.awaitingLock recordId) => some recordId
  | .creating _ (.lockRefused recordId _) => some recordId
  | .creating _ (.placing recordId _) => some recordId
  | .creating _ (.awaitingUnlock recordId) => some recordId
  | .creating _ (.failing recordId) => some recordId
  | _ => none

/-- An update that settles a record leaves its id, its scope and its expiry. -/
structure Settles (f : IdempotencyRecord → IdempotencyRecord) : Prop where
  id : ∀ r, (f r).id = r.id
  scope : ∀ r, (f r).scope = r.scope
  expiresAt : ∀ r, (f r).expiresAt = r.expiresAt

/-- What a step does to the records. -/
inductive RecordEffect (s : Shared) : Process → Shared → Process → Prop
  | kept {l l' : Process} {s' : Shared}
      (hrecords : s'.store.db.idempotencyRecords = s.store.db.idempotencyRecords)
      (hnow : s.store.now ≤ s'.store.now) (howner : recordOf l' = none ∨ recordOf l' = recordOf l) :
      RecordEffect s l s' l'
  | inserted {request : ValidRequest} {recordId : Uuid}
      (hscope : lookup IdempotencyRecord.scope s.store.db.idempotencyRecords
        (newRecord request.val recordId s.store.now).scope = none)
      (hid : lookup IdempotencyRecord.id s.store.db.idempotencyRecords recordId = none) :
      RecordEffect s (.creating request .recording)
        (setDb s (s.store.db.insertRecord (newRecord request.val recordId s.store.now)))
        (.creating request (.locking recordId))
  | settled {l l' : Process} {recordId : Uuid} {f : IdempotencyRecord → IdempotencyRecord}
      (hf : Settles f) (howner : recordOf l = some recordId) (hdone : recordOf l' = none) :
      RecordEffect s l (setDb s (s.store.db.setRecord recordId f)) l'

theorem RecordEffect.now_le (h : RecordEffect s l s' l') : s.store.now ≤ s'.store.now := by
  cases h with
  | kept _ hnow => exact hnow
  | inserted => exact le_rfl
  | settled => exact le_rfl

theorem now_activeStep {w : MatchingEngine.UnitOfWork} {point : Point} {placing : Placing}
    (h : activeStep p s w point action = some (s', placing)) : s'.store.now = s.store.now := by
  cases point with
  | reading ids => cases ids <;> cases action <;> cases h <;> rfl
  | numbering rest => cases rest <;> cases action <;> cases h <;> rfl
  | visiting =>
    cases action with
    | statement =>
      simp only [activeStep] at h
      split at h <;> cases h <;> rfl
    | _ => cases h <;> rfl
  | updating maker makerFilled =>
    cases action with
    | trade tradeId =>
      simp only [activeStep] at h
      split at h
      · cases h
        rfl
      · split at h <;> cases h
        rfl
    | _ => cases h <;> rfl
  | _ => cases action <;> cases h <;> rfl

theorem placingStep_effect {placing placing' : Placing}
    (h : placingStep p s request.val placing action = some (s', placing')) :
    RecordEffect s (.creating request (.placing recordId placing)) s'
      (.creating request (.placing recordId placing')) := by
  cases placing with
  | inserting =>
    cases action with
    | insert newId =>
      simp only [placingStep] at h
      split at h
      · cases h
        exact .kept rfl le_rfl (Or.inr rfl)
      · split at h
        · split at h <;> cases h <;> exact .kept rfl le_rfl (Or.inr rfl)
        · cases h
    | abort =>
      cases h
      exact .kept rfl le_rfl (Or.inr rfl)
    | _ => cases h
  | active w point =>
    have hnow := now_activeStep h
    refine .kept ?_ hnow.ge (Or.inr rfl)
    cases activeStep_cases h with
    | quiet hdb => exact congrArg OrdersDb.idempotencyRecords hdb
    | _ => rfl
  | _ => cases action <;> cases h

theorem settles_complete (item : OrderItem) :
    Settles fun r => { r with status := .completed, responsePayload := some item } :=
  ⟨fun _ => rfl, fun _ => rfl, fun _ => rfl⟩

theorem settles_fail : Settles fun r => { r with status := .failed } :=
  ⟨fun _ => rfl, fun _ => rfl, fun _ => rfl⟩

private theorem recordOf_resolveRecord {record : IdempotencyRecord} :
    recordOf (.creating request (resolveRecord request.val record)) = none := by
  unfold resolveRecord
  split
  · rfl
  · rfl
  · split <;> rfl

private theorem creatingStep_effect {progress progress' : Creating}
    (h : creatingStep p s request.val progress action = some (s', progress')) :
    RecordEffect s (.creating request progress) s' (.creating request progress') := by
  cases progress with
  | placing recordId placing =>
    have hplacing (h : (placingStep p s request.val placing action).map
        (fun r => (r.1, Creating.placing recordId r.2)) = some (s', progress')) :
        RecordEffect s (.creating request (.placing recordId placing)) s'
          (.creating request progress') := by
      obtain ⟨⟨s₁, placing'⟩, hstep, heq⟩ := Option.map_eq_some_iff.mp h
      obtain ⟨rfl, rfl⟩ := Prod.mk.inj heq
      exact placingStep_effect hstep
    cases placing with
    | committed order =>
      cases action with
      | statement =>
        cases h
        exact .settled (settles_complete _) rfl rfl
      | abort =>
        cases h
        exact .kept rfl le_rfl (Or.inl rfl)
      | _ => exact hplacing h
    | rolledBack =>
      cases action with
      | statement =>
        cases h
        exact .kept rfl le_rfl (Or.inr rfl)
      | _ => exact hplacing h
    | _ => exact hplacing h
  | checking =>
    cases action with
    | statement =>
      simp only [creatingStep] at h
      split at h <;> cases h
      · exact .kept rfl le_rfl (Or.inl rfl)
      · exact .kept rfl le_rfl (Or.inl recordOf_resolveRecord)
    | abort =>
      cases h
      exact .kept rfl le_rfl (Or.inl rfl)
    | _ => cases h
  | recording =>
    cases action with
    | insert recordId =>
      simp only [creatingStep] at h
      split at h <;> cases h
      · exact .kept rfl le_rfl (Or.inl rfl)
      · next hexists =>
        rw [Bool.or_eq_true, not_or] at hexists
        exact .inserted (by simpa using hexists.1) (by simpa using hexists.2)
    | abort =>
      cases h
      exact .kept rfl le_rfl (Or.inl rfl)
    | _ => cases h
  | lockRefused recordId message =>
    cases action with
    | statement =>
      cases h
      exact .settled settles_fail rfl rfl
    | abort =>
      cases h
      exact .kept rfl le_rfl (Or.inl rfl)
    | _ => cases h
  | failing recordId =>
    cases action with
    | statement =>
      cases h
      exact .settled settles_fail rfl rfl
    | abort =>
      cases h
      exact .kept rfl le_rfl (Or.inl rfl)
    | _ => cases h
  | awaitingLock recordId =>
    cases action with
    | reply reply => cases reply <;> cases h <;> exact .kept rfl le_rfl (Or.inr rfl)
    | _ => cases h
  | _ => cases action <;> cases h <;> exact .kept rfl le_rfl (Or.inr rfl)

theorem step_effect (h : step p s l action = some (s', l')) : RecordEffect s l s' l' := by
  cases l with
  | idle =>
    cases action with
    | createOrder request =>
      simp only [step] at h
      split at h <;> cases h <;> exact .kept rfl le_rfl (Or.inl rfl)
    | cancelOrder request =>
      cases h
      exact .kept rfl le_rfl (Or.inl rfl)
    | passTime ms =>
      cases h
      exact .kept rfl (Nat.le_add_right _ _) (Or.inl rfl)
    | _ => cases h
  | refused exception => cases h
  | creating request progress =>
    simp only [step, Option.map_eq_some_iff, Prod.mk.injEq] at h
    obtain ⟨⟨s₁, progress'⟩, hstep, rfl, rfl⟩ := h
    exact creatingStep_effect hstep
  | cancelling request progress =>
    simp only [step, Option.map_eq_some_iff, Prod.mk.injEq] at h
    obtain ⟨⟨s₁, progress'⟩, hstep, rfl, rfl⟩ := h
    obtain ⟨hrecords, hnow⟩ := cancellingStep_records hstep
    exact .kept hrecords hnow.ge (Or.inl rfl)

/-! ### Records of runs -/

/-- Each call that has not settled its record is the only one of that record, which is in
progress. -/
structure Owned (owner : ℕ → Option Uuid) (records : List IdempotencyRecord) : Prop where
  ids : KeyUnique IdempotencyRecord.id records
  scopes : KeyUnique IdempotencyRecord.scope records
  inProgress : ∀ p recordId, owner p = some recordId →
    ∃ r ∈ records, r.id = recordId ∧ r.status = .inProgress
  alone : ∀ p q recordId, owner p = some recordId → owner q = some recordId → p = q

variable {owner : ℕ → Option Uuid} {records : List IdempotencyRecord}

theorem Owned.leave (h : Owned owner records) {o : Option Uuid} (ho : o = none ∨ o = owner p) :
    Owned (Function.update owner p o) records := by
  have hold (q : ℕ) (recordId : Uuid) (hq : Function.update owner p o q = some recordId) :
      owner q = some recordId := by
    by_cases hqp : q = p
    · subst hqp
      rw [Function.update_self] at hq
      subst hq
      rcases ho with hnone | hsame
      · cases hnone
      · exact hsame.symm
    · rwa [Function.update_of_ne hqp] at hq
  exact ⟨h.ids, h.scopes, fun q recordId hq => h.inProgress q recordId (hold q recordId hq),
    fun q q' recordId hq hq' => h.alone q q' recordId (hold q recordId hq) (hold q' recordId hq')⟩

/-- A new record belongs to the call that inserts it. -/
theorem Owned.insert (h : Owned owner records) (hid : lookup IdempotencyRecord.id records r.id = none)
    (hscope : lookup IdempotencyRecord.scope records r.scope = none) (hr : r.status = .inProgress) :
    Owned (Function.update owner p (some r.id)) (records ++ [r]) := by
  have hfree (q : ℕ) : owner q ≠ some r.id := fun hq => by
    obtain ⟨r', hr', hid', -⟩ := h.inProgress q r.id hq
    exact lookup_eq_none.mp hid r' hr' hid'
  refine ⟨keyUnique_append_singleton h.ids hid, keyUnique_append_singleton h.scopes hscope,
    fun q recordId hq => ?_, fun q q' recordId hq hq' => ?_⟩
  · by_cases hqp : q = p
    · subst hqp
      rw [Function.update_self] at hq
      exact ⟨r, by simp, Option.some.inj hq, hr⟩
    · rw [Function.update_of_ne hqp] at hq
      obtain ⟨r', hr', hold⟩ := h.inProgress q recordId hq
      exact ⟨r', List.mem_append_left _ hr', hold⟩
  · by_cases hqp : q = p <;> by_cases hqp' : q' = p
    · rw [hqp, hqp']
    · rw [hqp, Function.update_self] at hq
      rw [Function.update_of_ne hqp', ← hq] at hq'
      exact absurd hq' (hfree q')
    · rw [hqp', Function.update_self] at hq'
      rw [Function.update_of_ne hqp, ← hq'] at hq
      exact absurd hq (hfree q)
    · rw [Function.update_of_ne hqp] at hq
      rw [Function.update_of_ne hqp'] at hq'
      exact h.alone q q' recordId hq hq'

/-- A call that settles its record changes no record of another call. -/
theorem Owned.settle (h : Owned owner records) {f : IdempotencyRecord → IdempotencyRecord}
    (hf : Settles f) (hp : owner p = some recordId) :
    Owned (Function.update owner p none)
      (records.map fun r => if r.id = recordId then f r else r) := by
  have hid (r : IdempotencyRecord) : (if r.id = recordId then f r else r).id = r.id := by
    split
    · exact hf.id r
    · rfl
  have hscope (r : IdempotencyRecord) : (if r.id = recordId then f r else r).scope = r.scope := by
    split
    · exact hf.scope r
    · rfl
  have hleave : Owned (Function.update owner p none) records := h.leave (Or.inl rfl)
  refine ⟨keyUnique_map h.ids fun r _ => hid r, keyUnique_map h.scopes fun r _ => hscope r,
    fun q id hq => ?_, hleave.alone⟩
  have hne : q ≠ p := by
    rintro rfl
    rw [Function.update_self] at hq
    cases hq
  obtain ⟨r, hr, rfl, hstatus⟩ := hleave.inProgress q id hq
  rw [Function.update_of_ne hne] at hq
  have hother : r.id ≠ recordId := fun heq => hne (h.alone q p recordId (heq ▸ hq) hp)
  exact ⟨r, List.mem_map.mpr ⟨r, hr, if_neg hother⟩, rfl, hstatus⟩

def OwnedRecords (c : OrdersConfig) : Prop :=
  Owned (fun p => recordOf (c.procs p)) c.shared.store.db.idempotencyRecords

theorem recordOf_update (c : OrdersConfig) (p : ℕ) (l : Process) :
    (fun q => recordOf (Function.update c.procs p l q)) =
      Function.update (fun q => recordOf (c.procs q)) p (recordOf l) :=
  Function.comp_update recordOf c.procs p l

theorem ownedRecords_next (hc : OwnedRecords c) (h : ordersSystem.next c e = some d) :
    OwnedRecords d := by
  obtain ⟨s', l', hstep, rfl⟩ := System.next_eq_some.mp h
  rw [OwnedRecords, recordOf_update]
  have heffect : RecordEffect c.shared (c.procs e.proc) s' l' := step_effect hstep
  generalize hl : c.procs e.proc = l at heffect
  cases heffect with
  | kept hrecords hnow howner =>
    rw [hrecords]
    exact hc.leave (by rwa [hl])
  | inserted hscope hid => exact hc.insert hid hscope rfl
  | settled hf howner hdone =>
    rw [hdone]
    exact hc.settle hf (by rwa [hl])

theorem ownedRecords_initial : OwnedRecords initial := ⟨keyUnique_nil, keyUnique_nil, nofun, nofun⟩

theorem ownedRecords_of_exec (h : ordersSystem.exec initial es = some c) : OwnedRecords c :=
  System.exec_invariant h ownedRecords_initial fun _ _ _ => ownedRecords_next

/-! ### Keys that are spent -/

/-- The record has failed, or its validity window is over. -/
def Ended (now : ℕ) (r : IdempotencyRecord) : Prop := r.status = .failed ∨ r.expiresAt ≤ now

/-- There is a record of the key, and it has ended. -/
structure Spent (key : Uuid × String) (c : OrdersConfig) : Prop where
  owned : OwnedRecords c
  recorded : HasRecord c.shared.store.db key
  ended : ∀ r ∈ c.shared.store.db.idempotencyRecords, r.scope = recordScope key →
    Ended c.shared.store.now r

theorem spent_of_mem {key : Uuid × String} (hc : OwnedRecords c)
    (hr : r ∈ c.shared.store.db.idempotencyRecords) (hscope : r.scope = recordScope key)
    (hended : Ended c.shared.store.now r) : Spent key c where
  owned := hc
  recorded := List.mem_map.mpr ⟨r, hr, hscope⟩
  ended r' hr' hscope' := by
    obtain rfl := hc.scopes.eq hr hr' (hscope.trans hscope'.symm)
    exact hended

theorem hasRecord_next {key : Uuid × String} (hkey : HasRecord c.shared.store.db key)
    (h : ordersSystem.next c e = some d) : HasRecord d.shared.store.db key := by
  obtain ⟨s', l', hstep, rfl⟩ := System.next_eq_some.mp h
  have hrecords : RecordStep c.shared (c.procs e.proc) s' l' := step_records hstep
  generalize c.procs e.proc = l at hrecords
  cases hrecords with
  | kept hrecords hupdated => exact (hasRecord_map hrecords hupdated).mpr hkey
  | recorded => exact hasRecord_insertRecord.mpr (Or.inl hkey)

/-- A record that a call settles has not failed. -/
theorem ended_settle {now : ℕ} {f : IdempotencyRecord → IdempotencyRecord}
    (h : Owned owner records) (hf : Settles f) (hp : owner p = some recordId) (hr : r ∈ records)
    (hended : Ended now r) : Ended now (if r.id = recordId then f r else r) := by
  rcases hended with hfailed | hexpired
  · have hother : r.id ≠ recordId := by
      intro hid
      obtain ⟨r', hr', hid', hstatus⟩ := h.inProgress p recordId hp
      obtain rfl := h.ids.eq hr hr' (hid.trans hid'.symm)
      rw [hfailed] at hstatus
      cases hstatus
    rw [if_neg hother]
    exact Or.inl hfailed
  · refine Or.inr ?_
    split
    · rwa [hf.expiresAt]
    · exact hexpired

/-- An ended record stays so: its scope admits no second one, and nobody settles it. -/
theorem spent_next {key : Uuid × String} (hc : Spent key c)
    (h : ordersSystem.next c e = some d) : Spent key d := by
  refine ⟨ownedRecords_next hc.owned h, hasRecord_next hc.recorded h, fun r hr hscope => ?_⟩
  obtain ⟨s', l', hstep, rfl⟩ := System.next_eq_some.mp h
  have heffect : RecordEffect c.shared (c.procs e.proc) s' l' := step_effect hstep
  generalize hl : c.procs e.proc = l at heffect
  cases heffect with
  | kept hrecords hnow =>
    rw [hrecords] at hr
    exact (hc.ended r hr hscope).imp_right fun hexpired => hexpired.trans hnow
  | inserted hnew =>
    rcases List.mem_append.mp hr with hold | hadded
    · exact hc.ended r hold hscope
    · obtain ⟨r', hr', hscope'⟩ := List.mem_map.mp hc.recorded
      rw [List.mem_singleton.mp hadded] at hscope
      exact absurd (hscope'.trans hscope.symm) (lookup_eq_none.mp hnew r' hr')
  | settled hf howner =>
    obtain ⟨r', hr', rfl⟩ := List.mem_map.mp hr
    have hscope' : r'.scope = recordScope key := by
      split at hscope
      · rwa [hf.scope] at hscope
      · exact hscope
    exact ended_settle (p := e.proc) hc.owned hf (by rwa [hl]) hr' (hc.ended r' hr' hscope')

/-! ### The retry -/

/-- The call waits before the insert of its record, or has been refused. -/
def BeforeLock (request : ValidRequest) (l : Process) : Prop :=
  l = .creating request .checking ∨ l = .creating request .recording ∨
    ∃ failure, l = .creating request (.thrown failure)

/-- What the check finds of a spent key has failed. -/
theorem failed_of_findRecord (hc : Spent (requestKey request.val) c)
    (h : c.shared.store.db.findRecord c.shared.store.now request.val.userId createOrderOperation
      request.val.idempotencyKey = some r) : r.status = .failed := by
  obtain ⟨hlookup, hvalid⟩ := Option.filter_eq_some_iff.mp h
  obtain ⟨hr, hscope⟩ := lookup_mem hlookup
  rcases hc.ended r hr hscope with hfailed | hexpired
  · exact hfailed
  · exact absurd (of_decide_eq_true hvalid) (Nat.not_lt.mpr hexpired)

theorem resolveRecord_failed (h : r.status = .failed) : resolveRecord request.val r =
    if r.requestHash ≠ requestHash request.val then
      .thrown (.rpc ⟨HttpStatus.badRequest, OrdersErrors.idempotencyPayloadMismatch⟩)
    else .recording := by
  rw [resolveRecord, h]

theorem isSome_scope (hc : Spent (requestKey request.val) c) (now : ℕ) (recordId : Uuid) :
    (lookup IdempotencyRecord.scope c.shared.store.db.idempotencyRecords
      (newRecord request.val recordId now).scope).isSome = true := by
  obtain ⟨r, hr, hscope⟩ := List.mem_map.mp hc.recorded
  rw [Option.isSome_iff_ne_none]
  exact fun hnone => lookup_eq_none.mp hnone r hr hscope

theorem beforeLock_checking (hc : Spent (requestKey request.val) c) {progress : Creating}
    (h : creatingStep p c.shared request.val .checking action = some (s', progress)) :
    BeforeLock request (.creating request progress) := by
  cases action with
  | statement =>
    simp only [creatingStep] at h
    split at h
    · cases h
      exact Or.inr (Or.inl rfl)
    · next record hfound =>
      cases h
      rw [resolveRecord_failed (failed_of_findRecord hc hfound)]
      split
      · exact Or.inr (Or.inr ⟨_, rfl⟩)
      · exact Or.inr (Or.inl rfl)
  | abort =>
    cases h
    exact Or.inr (Or.inr ⟨_, rfl⟩)
  | _ => cases h

/-- The insert of a second record for the key violates the unique index. -/
theorem recording_insert (hc : Spent (requestKey request.val) c) (recordId : Uuid) :
    creatingStep p c.shared request.val .recording (.insert recordId) =
      some (c.shared, .thrown .infrastructure) := by
  simp only [creatingStep, isSome_scope hc, Bool.true_or, if_true]

theorem beforeLock_recording (hc : Spent (requestKey request.val) c) {progress : Creating}
    (h : creatingStep p c.shared request.val .recording action = some (s', progress)) :
    BeforeLock request (.creating request progress) := by
  cases action with
  | insert recordId =>
    rw [recording_insert hc] at h
    cases h
    exact Or.inr (Or.inr ⟨_, rfl⟩)
  | abort =>
    cases h
    exact Or.inr (Or.inr ⟨_, rfl⟩)
  | _ => cases h

theorem beforeLock_step (hc : Spent (requestKey request.val) c)
    (hl : BeforeLock request l) (h : step p c.shared l action = some (s', l')) :
    BeforeLock request l' := by
  rcases hl with rfl | rfl | ⟨failure, rfl⟩
  · obtain ⟨⟨s₁, progress⟩, hstep, heq⟩ := Option.map_eq_some_iff.mp h
    obtain ⟨rfl, rfl⟩ := Prod.mk.inj heq
    exact beforeLock_checking hc hstep
  · obtain ⟨⟨s₁, progress⟩, hstep, heq⟩ := Option.map_eq_some_iff.mp h
    obtain ⟨rfl, rfl⟩ := Prod.mk.inj heq
    exact beforeLock_recording hc hstep
  · cases action <;> cases h

theorem beforeLock_next (hc : Spent (requestKey request.val) c)
    (hl : BeforeLock request (c.procs p)) (h : ordersSystem.next c e = some d) :
    BeforeLock request (d.procs p) := by
  obtain ⟨s', l', hstep, rfl⟩ := System.next_eq_some.mp h
  by_cases hp : p = e.proc
  · subst hp
    simpa using beforeLock_step hc hl hstep
  · simpa [Function.update_of_ne hp] using hl

theorem step_createOrder (hidle : l = .idle) : step p s l (.createOrder request.val) =
    some (s, .creating request .checking) := by
  rw [hidle]
  simp only [step]
  split
  · next exception hinvalid =>
    rw [request.property] at hinvalid
    cases hinvalid
  · rfl

theorem next_createOrder (hidle : c.procs p = .idle) :
    ordersSystem.next c ⟨p, .createOrder request.val⟩ =
      some ⟨c.shared, Function.update c.procs p (.creating request .checking)⟩ :=
  System.next_eq_some.mpr ⟨_, _, step_createOrder hidle, rfl⟩

theorem spent_started {key : Uuid × String} (hc : Spent key c) (hidle : c.procs p = .idle) :
    Spent key ⟨c.shared, Function.update c.procs p (.creating request .checking)⟩ :=
  spent_next hc (next_createOrder hidle)

/-- A later call never gets past its record, whatever others do. -/
theorem beforeLock_of_exec (hc : Spent (requestKey request.val) c) (hidle : c.procs p = .idle)
    (h : ordersSystem.exec c (⟨p, .createOrder request.val⟩ :: fs) = some d) :
    BeforeLock request (d.procs p) := by
  obtain ⟨m, hm, hrest⟩ := Option.bind_eq_some_iff.mp h
  rw [next_createOrder hidle] at hm
  obtain rfl := Option.some.inj hm
  have hlast := System.exec_invariant
    (I := fun c => Spent (requestKey request.val) c ∧ BeforeLock request (c.procs p))
    hrest ⟨spent_started hc hidle, Or.inl (Function.update_self _ _ _)⟩
    fun _ _ _ hI hnext => ⟨spent_next hI.1 hnext, beforeLock_next hI.1 hI.2 hnext⟩
  exact hlast.2

theorem checking_statement (hc : Spent (requestKey request.val) c)
    (hhash : ∀ r ∈ c.shared.store.db.idempotencyRecords,
      r.scope = recordScope (requestKey request.val) → r.requestHash = requestHash request.val) :
    creatingStep p c.shared request.val .checking .statement = some (c.shared, .recording) := by
  simp only [creatingStep]
  split
  · rfl
  · next record hfound =>
    obtain ⟨hr, hscope⟩ := lookup_mem (Option.filter_eq_some_iff.mp hfound).1
    rw [resolveRecord_failed (failed_of_findRecord hc hfound), hhash record hr hscope]
    simp

/-- Alone and without a failure, the call throws an error of the database. -/
theorem throws_alone (hc : Spent (requestKey request.val) c) (hidle : c.procs p = .idle)
    (hhash : ∀ r ∈ c.shared.store.db.idempotencyRecords,
      r.scope = recordScope (requestKey request.val) → r.requestHash = requestHash request.val)
    (recordId : Uuid) :
    ordersSystem.exec c [⟨p, .createOrder request.val⟩, ⟨p, .statement⟩, ⟨p, .insert recordId⟩] =
      some ⟨c.shared, Function.update c.procs p (.creating request (.thrown .infrastructure))⟩ := by
  have hstart : step p c.shared (c.procs p) (.createOrder request.val) =
      some (c.shared, .creating request .checking) := step_createOrder hidle
  have hcheck : step p c.shared (.creating request .checking) .statement =
      some (c.shared, .creating request .recording) := by
    rw [step, checking_statement hc hhash, Option.map_some]
  have hinsert : step p c.shared (.creating request .recording) (.insert recordId) =
      some (c.shared, .creating request (.thrown .infrastructure)) := by
    rw [step, recording_insert hc, Option.map_some]
  have hrun : ordersSystem.runAlone p c.shared (c.procs p)
      [Action.createOrder request.val, .statement, .insert recordId] =
        some (c.shared, .creating request (.thrown .infrastructure)) := by
    change (step p c.shared (c.procs p) (.createOrder request.val)).bind _ = _
    rw [hstart, Option.bind_some]
    change (step p c.shared (.creating request .checking) .statement).bind _ = _
    rw [hcheck, Option.bind_some]
    change (step p c.shared (.creating request .recording) (.insert recordId)).bind _ = _
    rw [hinsert, Option.bind_some]
    rfl
  exact System.exec_of_runAlone hrun

/-- The record of a call's key has ended with the payload of the call. -/
structure EndedRecord (c : OrdersConfig) (request : ValidRequest) (r : IdempotencyRecord) :
    Prop where
  mem : r ∈ c.shared.store.db.idempotencyRecords
  scope : r.scope = recordScope (requestKey request.val)
  payload : r.requestHash = requestHash request.val
  ended : Ended c.shared.store.now r

/-- The record of a reached configuration spends its key. -/
theorem EndedRecord.spent (hr : EndedRecord c request r)
    (h : ordersSystem.exec initial es = some c) : Spent (requestKey request.val) c :=
  spent_of_mem (ownedRecords_of_exec h) hr.mem hr.scope hr.ended

/-- In no run is a call with the key and the payload of an ended record a fresh attempt: it
never reaches the lock, whatever the others do, and alone it throws an error of the
database and changes nothing. -/
theorem never_retried (h : ordersSystem.exec initial es = some c) (hr : EndedRecord c request r)
    (hidle : c.procs p = .idle) :
    (∀ fs d, ordersSystem.exec c (⟨p, .createOrder request.val⟩ :: fs) = some d →
      BeforeLock request (d.procs p)) ∧
    ∀ recordId,
      ordersSystem.exec c [⟨p, .createOrder request.val⟩, ⟨p, .statement⟩, ⟨p, .insert recordId⟩] =
        some ⟨c.shared, Function.update c.procs p (.creating request (.thrown .infrastructure))⟩ := by
  have hspent := hr.spent h
  refine ⟨fun fs d hd => beforeLock_of_exec hspent hidle hd, throws_alone hspent hidle ?_⟩
  intro r' hr' hscope
  obtain rfl := hspent.owned.scopes.eq hr.mem hr' (hr.scope.trans hscope.symm)
  exact hr.payload

def buyRequest : ValidRequest :=
  ⟨limitOrder "buyer" .buy 100 1, by decide +kernel⟩

/-- The balance service refuses the lock, and the record of the call fails. -/
def refusedLock : List (Event Action) :=
  [⟨0, .createOrder (limitOrder "buyer" .buy 100 1)⟩, ⟨0, .statement⟩, ⟨0, .insert "record"⟩,
    ⟨0, .statement⟩, ⟨0, .reply (.error "Insufficient balance")⟩, ⟨0, .statement⟩]

theorem refusedLock_executes : (ordersSystem.exec initial refusedLock).isSome = true := by
  decide +kernel

def failedRecord : IdempotencyRecord :=
  { newRecord buyRequest.val "record" 0 with status := .failed }

theorem endedRecord_refusedLock : EndedRecord
    ((ordersSystem.exec initial refusedLock).get refusedLock_executes) buyRequest failedRecord :=
  ⟨by decide +kernel, rfl, rfl, Or.inl rfl⟩

theorem never_retried_refusedLock :
    let c := (ordersSystem.exec initial refusedLock).get refusedLock_executes
    ordersSystem.exec c [⟨1, .createOrder buyRequest.val⟩, ⟨1, .statement⟩, ⟨1, .insert "new"⟩] =
      some ⟨c.shared, Function.update c.procs 1
        (.creating buyRequest (.thrown .infrastructure))⟩ :=
  (never_retried (p := 1) (Option.some_get _).symm endedRecord_refusedLock rfl).2 "new"

/-- The retry of an order whose lock was refused returns no order in any run. -/
theorem not_retried_refusedLock : ¬∀ es c request r p, ordersSystem.exec initial es = some c →
    EndedRecord c request r → c.procs p = .idle →
      ∃ fs d item, ordersSystem.exec c (⟨p, .createOrder request.val⟩ :: fs) = some d ∧
        d.procs p = .creating request (.returned item) ∧
          c.shared.store.db.findById item.orderId = none ∧
            (d.shared.store.db.findById item.orderId).isSome := by
  intro h
  obtain ⟨fs, d, item, hexec, hreturned, -⟩ := h _ _ buyRequest failedRecord 1
    (Option.some_get refusedLock_executes).symm endedRecord_refusedLock rfl
  have hspent := endedRecord_refusedLock.spent (Option.some_get refusedLock_executes).symm
  rcases beforeLock_of_exec hspent rfl hexec with hl | hl | ⟨failure, hl⟩ <;>
    rw [hreturned] at hl <;> cases hl

end EtherTrade.OrderRetryLaws
