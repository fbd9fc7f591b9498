import EtherTrade.AccountsTransactionSteps

/-!
# Runs of the accounts system

The concurrent system refines histories of complete changes: in every run, every step
leaves the committed database as it is or makes one change of `Committed`. A law of
such histories therefore holds of every run.
-/

namespace EtherTrade.AccountsTransactionRuns

open KeyedRows AccountsSchema PostedJournals AccountsDbInvariants
open BalanceMutations BalanceMutationCorrectness TradeSettlement TradeSettlementCorrectness
open AccountsDbHistory InterleavedProcesses ResourceLocks AccountsTransactions
open AccountsTransactionInvariants AccountsTransactionSteps

variable {T : TradeExecutedEvent → Prop} {G : TradeExecutedEvent → AccountsDb → Prop}
  {db : AccountsDb} {p q : ℕ} {s s' : Shared} {l l' : Process} {action : Action}
  {c d : AccountsConfig} {e : Event Action} {es : List (Event Action)}

/-- What a step of a process does to the committed database. -/
inductive Effect (T : TradeExecutedEvent → Prop) (s : Shared) :
    Process → Process → AccountsDb → Prop
  | unchanged {l l' : Process}
      (hcall : ∀ op params a, l' ≠ .calling op params (.returned (.ok a)))
      (hdelivery : ∀ envelope trade, l' ≠ .settling envelope trade (.done .settled)) :
      Effect T s l l' s.store
  | opened {envelope : DomainEventEnvelope} {trade : TradeExecutedEvent}
      {lookups lookups' : Participant → Lookup} {q : Participant} {account : Account}
      (hzero : account.balances = 0) (howner : account.owner = trade.owner q)
      (hid : s.store.findById account.id = none)
      (hmissing : s.store.findByUserAndCurrency account.userId account.currency = none) :
      Effect T s (.settling envelope trade (.finding lookups))
        (.settling envelope trade (.finding lookups')) (s.store.insertAccount account)
  | mutated {op : BalanceOperation} {params : BalanceParams} {account : Account} {opened : Bool}
      {prepared : AccountsDb}
      (hkey : s.store.findLedgerByIdempotencyKey params.idempotencyKey = none)
      (hprepared : Prepared op.mutation params s.store account prepared) :
      Effect T s (.calling op params (.written account opened))
        (.calling op params (.returned (.ok (op.mutation.updatedAccount params account))))
        (op.mutation.commit params account prepared)
  | settled {envelope : DomainEventEnvelope} {trade : TradeExecutedEvent}
      {ids : Participant → Uuid} {writes : SettlementWrites} (hT : T trade)
      (hs : Settlement envelope trade ids writes s.store) :
      Effect T s (.settling envelope trade (.marked ids writes))
        (.settling envelope trade (.done .settled)) (commitSettlement envelope writes s.store)

/-- Every trade that is delivered satisfies `T`. -/
def Admits (T : TradeExecutedEvent → Prop) (action : Action) : Prop :=
  ∀ payload envelope trade, action = .deliver payload →
    acceptMessage payload = .inr (envelope, trade) → T trade

/-- What a step restores and what it leaves to the other processes. -/
structure StepSpec (T : TradeExecutedEvent → Prop) (p : ℕ) (s s' : Shared) (l l' : Process) :
    Prop where
  effect : Effect T s l l' s'.store
  wellFormed : WellFormed s'.store
  own : ProcessInvariant T p s' l'
  others : ∀ q, p ≠ q → Undisturbed q s s'

theorem wellFormed_effect (hdb : WellFormed s.store) (h : Effect T s l l' db) : WellFormed db := by
  cases h with
  | unchanged => exact hdb
  | opened _ _ hid hmissing => exact hdb.insertAccount hid hmissing
  | mutated hkey hprepared => exact wellFormed_commit hkey hprepared hdb
  | settled _ hs =>
    obtain ⟨f, -, -, heq⟩ := hs.commit_eq hdb
    rw [heq]
    exact wellFormed_settledDb hs hdb

theorem extends_effect (hdb : WellFormed s.store) (h : Effect T s l l' db) :
    Extends s.store db := by
  cases h with
  | unchanged => exact .refl _
  | opened => exact extends_insertAccount
  | mutated hkey hprepared =>
    exact extends_committed (G := fun _ _ => True) hdb (.mutated hkey hprepared)
  | settled _ hs => exact extends_committed (G := fun _ _ => True) hdb (.settled hs trivial)

private theorem stepSpec_quiet (hdb : WellFormed s.store) (hquiet : Quiet p s s')
    (hcall : ∀ op params a, l' ≠ .calling op params (.returned (.ok a)))
    (hdelivery : ∀ envelope trade, l' ≠ .settling envelope trade (.done .settled))
    (hown : ProcessInvariant T p s' l') : StepSpec T p s s' l l' where
  effect := by
    rw [hquiet.store_eq]
    exact .unchanged hcall hdelivery
  wellFormed := by
    rw [hquiet.store_eq]
    exact hdb
  own := hown
  others _ hpq := hquiet.undisturbed hpq

private theorem stepSpec_call {op : BalanceOperation} {params : BalanceParams}
    {progress progress' : CallProgress} (hdb : WellFormed s.store)
    (hi : CallInvariant p s op.mutation params progress)
    (h : callStep p s op.mutation params progress action = some (s', progress')) :
    StepSpec T p s s' (.calling op params progress) (.calling op params progress') := by
  rcases callStep_cases hdb hi h with ⟨hquiet, hown, hok⟩ | ⟨account, opened, rfl, rfl, rfl⟩
  · refine stepSpec_quiet hdb hquiet ?_ (by simp) hown
    rintro op' params' a heq
    simp only [Process.calling.injEq] at heq
    exact hok a heq.2.2
  · obtain ⟨hsecured, hpassed, hlock, hkey⟩ := hi
    have hprepared := prepared_of_secured hdb hsecured hpassed
    have heffect : Effect T s (.calling op params (.written account opened))
        (.calling op params (.returned (.ok (op.mutation.updatedAccount params account))))
        (op.mutation.commit params account (preparedDb s.store account opened)) :=
      .mutated hkey hprepared
    exact ⟨heffect, wellFormed_effect hdb heffect, trivial, fun q hpq =>
      undisturbed_commit hpq (extends_effect hdb heffect) fun r hr =>
        available_of_secured hdb hsecured hpassed hlock hr⟩

private theorem stepSpec_settlement {envelope : DomainEventEnvelope} {trade : TradeExecutedEvent}
    {progress progress' : SettlementProgress} (hdb : WellFormed s.store)
    (hi : ProcessInvariant T p s (.settling envelope trade progress))
    (h : settlementStep p s envelope trade progress action = some (s', progress')) :
    StepSpec T p s s' (.settling envelope trade progress) (.settling envelope trade progress') := by
  obtain ⟨hT, husers, hi⟩ := hi
  rcases settlementStep_cases hdb hi h with ⟨hquiet, hown, hdone⟩ |
      ⟨lookups, lookups', q, account, rfl, rfl, hopens, rfl⟩ | ⟨ids, writes, rfl, rfl, rfl⟩
  · refine stepSpec_quiet hdb hquiet (by simp) ?_ ⟨hT, husers, hown⟩
    rintro envelope' trade' heq
    simp only [Process.settling.injEq] at heq
    exact hdone heq.2.2
  · obtain ⟨hzero, howner, hcan, hmissing, hid, rfl⟩ := hopens
    have heffect : Effect T s (.settling envelope trade (.finding lookups))
        (.settling envelope trade (.finding (Function.update lookups q (.found account.id))))
        (s.store.insertAccount account) := .opened hzero howner hid hmissing
    refine ⟨heffect, wellFormed_effect hdb heffect, ⟨hT, husers, ?_⟩, fun q' hpq =>
      ⟨keeps_of_available hpq fun r hr => ?_, extends_insertAccount⟩⟩
    · intro q' id hfound
      by_cases hq : q' = q
      · subst hq
        rw [Function.update_self] at hfound
        obtain rfl := Lookup.found.inj hfound
        exact ⟨account, by simp [findById_insertAccount, hid], howner⟩
      · rw [Function.update_of_ne hq] at hfound
        obtain ⟨a, ha, ho⟩ := hi q' id hfound
        exact ⟨a, findById_insertAccount_of_some ha, ho⟩
    · rcases view_insertAccount hr with rfl | rfl
      · exact hcan.2
      · exact hcan.1
  · obtain ⟨ho, hlock, hwrites, hevent, hnew⟩ := hi
    have hs : Settlement envelope trade ids writes s.store := ⟨husers, hnew, ho, hwrites⟩
    have heffect : Effect T s (.settling envelope trade (.marked ids writes))
        (.settling envelope trade (.done .settled)) (commitSettlement envelope writes s.store) :=
      .settled hT hs
    have hstay := extends_effect hdb heffect
    have hprocessed : (commitSettlement envelope writes s.store).isEventProcessed
        envelope.eventId = true := by
      simp [commitSettlement, AccountsDb.isEventProcessed, AccountsDb.findProcessedEvent,
        AccountsDb.markEventProcessed, KeyedRows.lookup_append_singleton, processedEvent]
    exact ⟨heffect, wellFormed_effect hdb heffect,
      ⟨hT, husers, ⟨ids, owned_extends hstay ho⟩, hprocessed⟩,
      fun q hpq => undisturbed_commit hpq hstay fun r hr =>
        available_of_marked hdb hs hlock hevent hr⟩

theorem step_spec (hdb : WellFormed s.store) (hi : ProcessInvariant T p s l)
    (hadmits : Admits T action) (h : step p s l action = some (s', l')) :
    StepSpec T p s s' l l' := by
  cases l with
  | idle =>
    cases action with
    | call op params =>
      obtain ⟨rfl, rfl⟩ := Prod.mk.inj (Option.some.inj h)
      exact stepSpec_quiet hdb .same (by simp) (by simp) trivial
    | deliver payload =>
      simp only [step] at h
      split at h <;> obtain ⟨rfl, rfl⟩ := Prod.mk.inj (Option.some.inj h)
      · exact stepSpec_quiet hdb .same (by simp) (by simp) trivial
      · next envelope trade haccept =>
        refine stepSpec_quiet hdb .same (by simp) (by simp)
          ⟨hadmits _ _ _ rfl haccept, acceptMessage_users haccept, ?_⟩
        intro q id hfound
        cases hfound
    | _ => cases h
  | dismissed outcome => cases h
  | calling op params progress =>
    simp only [step, Option.map_eq_some_iff, Prod.mk.injEq] at h
    obtain ⟨⟨s₁, progress'⟩, hstep, rfl, rfl⟩ := h
    exact stepSpec_call hdb hi hstep
  | settling envelope trade progress =>
    simp only [step, Option.map_eq_some_iff, Prod.mk.injEq] at h
    obtain ⟨⟨s₁, progress'⟩, hstep, rfl, rfl⟩ := h
    exact stepSpec_settlement hdb hi hstep

/-! ### Runs -/

/-- The invariant of the system. -/
structure AccountsInvariant (T : TradeExecutedEvent → Prop) (c : AccountsConfig) : Prop where
  wellFormed : WellFormed c.shared.store
  processes : ∀ p, ProcessInvariant T p c.shared (c.procs p)

theorem accountsInvariant_initial : AccountsInvariant T initial :=
  ⟨wellFormed_empty, fun _ => trivial⟩

theorem accountsInvariant_next (hc : AccountsInvariant T c) (hadmits : Admits T e.action)
    (h : accountsSystem.next c e = some d) : AccountsInvariant T d := by
  obtain ⟨s, l, hs, rfl⟩ := System.next_eq_some.mp h
  have hspec := step_spec hc.wellFormed (hc.processes e.proc) hadmits hs
  refine ⟨hspec.wellFormed, fun q => ?_⟩
  by_cases hq : q = e.proc
  · subst hq
    simpa using hspec.own
  · have hown := processInvariant_undisturbed (hspec.others q (Ne.symm hq)) (hc.processes q)
    simpa [Function.update_of_ne hq] using hown

/-- Every step of a run has one of the effects. -/
theorem effect_next (hc : AccountsInvariant T c) (hadmits : Admits T e.action)
    (h : accountsSystem.next c e = some d) :
    Effect T c.shared (c.procs e.proc) (d.procs e.proc) d.shared.store := by
  obtain ⟨s, l, hs, rfl⟩ := System.next_eq_some.mp h
  simpa using (step_spec hc.wellFormed (hc.processes e.proc) hadmits hs).effect

/-- Deliveries satisfy `T`, and a settlement commits in a database that satisfies `G`. -/
def Guard (T : TradeExecutedEvent → Prop) (G : TradeExecutedEvent → AccountsDb → Prop)
    (c : AccountsConfig) (e : Event Action) : Prop :=
  Admits T e.action ∧ ∀ envelope trade ids writes,
    c.procs e.proc = .settling envelope trade (.marked ids writes) → e.action = .statement →
      G trade c.shared.store

abbrev AccountsRun (T : TradeExecutedEvent → Prop) (G : TradeExecutedEvent → AccountsDb → Prop)
    (es : List (Event Action)) (d : AccountsConfig) : Prop :=
  accountsSystem.Run (Guard T G) initial es d

/-- The guard, checked on one transition. -/
def meetsGuard (T : TradeExecutedEvent → Prop) (G : TradeExecutedEvent → AccountsDb → Prop)
    [DecidablePred T] [∀ trade, DecidablePred (G trade)]
    (t : System.Transition Shared Process Action) : Bool :=
  (match t.event.action with
    | .deliver payload => match acceptMessage payload with
      | .inl _ => true
      | .inr (_, trade) => decide (T trade)
    | _ => true) &&
  (match t.before.procs t.event.proc with
    | .settling _ trade (.marked _ _) => decide (G trade t.before.shared.store)
    | _ => true)

/-- An executed schedule whose transitions pass the check is a run. -/
theorem accountsRun_of_meetsGuard [DecidablePred T] [∀ trade, DecidablePred (G trade)]
    (h : accountsSystem.exec initial es = some d)
    (hall : (accountsSystem.transitions initial es).all (meetsGuard T G) = true) :
    AccountsRun T G es d := by
  refine .of_check h hall fun t hcheck => ?_
  simp only [meetsGuard, Bool.and_eq_true] at hcheck
  obtain ⟨hdeliver, hmarked⟩ := hcheck
  constructor
  · intro payload envelope trade haction haccept
    rw [haction] at hdeliver
    simpa [haccept] using hdeliver
  · intro envelope trade ids writes hproc _
    rw [hproc] at hmarked
    simpa using hmarked

/-- Only its commit takes a marked settlement to its end. -/
theorem action_of_settled {envelope : DomainEventEnvelope} {trade : TradeExecutedEvent}
    {ids : Participant → Uuid} {writes : SettlementWrites}
    (h : step p s (.settling envelope trade (.marked ids writes)) action =
      some (s', .settling envelope trade (.done .settled))) : action = .statement := by
  cases action <;> simp_all [step, settlementStep]

/-- The refinement: a guarded step changes the database by one complete change, or not. -/
theorem committed_next (hc : AccountsInvariant T c) (hguard : Guard T G c e)
    (h : accountsSystem.next c e = some d) :
    d.shared.store = c.shared.store ∨
      Committed (fun trade db => T trade ∧ G trade db) c.shared.store d.shared.store := by
  obtain ⟨hadmits, hcommit⟩ := hguard
  obtain ⟨s, l, hs, rfl⟩ := System.next_eq_some.mp h
  change step e.proc c.shared (c.procs e.proc) e.action = some (s, l) at hs
  have heffect := (step_spec hc.wellFormed (hc.processes e.proc) hadmits hs).effect
  generalize c.procs e.proc = before at hs heffect hcommit
  generalize hstore : s.store = store at heffect
  cases heffect with
  | unchanged => exact Or.inl rfl
  | opened hzero howner hid hmissing => exact Or.inr (.opened hzero hid hmissing)
  | mutated hkey hprepared => exact Or.inr (.mutated hkey hprepared)
  | settled hT hsettlement =>
    exact Or.inr (.settled hsettlement ⟨hT, hcommit _ _ _ _ rfl (action_of_settled hs)⟩)

/-- A law that every complete change preserves holds of every run. -/
theorem run_invariant {I : AccountsDb → Prop} (h : AccountsRun T G es d) (h0 : I .empty)
    (hstep : ∀ db db', WellFormed db → I db →
      Committed (fun trade db => T trade ∧ G trade db) db db' → I db') :
    WellFormed d.shared.store ∧ I d.shared.store := by
  have hinv : AccountsInvariant T d ∧ I d.shared.store := by
    refine h.invariant (I := fun c => AccountsInvariant T c ∧ I c.shared.store)
      ⟨accountsInvariant_initial, h0⟩ ?_
    rintro c e d ⟨hc, hI⟩ hguard hnext
    refine ⟨accountsInvariant_next hc hguard.1 hnext, ?_⟩
    rcases committed_next hc hguard hnext with heq | hcommitted
    · rw [heq]
      exact hI
    · exact hstep _ _ hc.wellFormed hI hcommitted
  exact ⟨hinv.1.wellFormed, hinv.2⟩

/-- Whether a call has ended. -/
def ended : Process → Bool
  | .calling _ _ (.returned _) => true
  | .calling _ _ .failed => true
  | _ => false

/-- A call that has ended takes no step. -/
theorem step_of_ended (h : ended l = true) : step p s l action = none := by
  unfold ended at h
  split at h
  · cases action <;> rfl
  · cases action <;> rfl
  · cases h

end EtherTrade.AccountsTransactionRuns
