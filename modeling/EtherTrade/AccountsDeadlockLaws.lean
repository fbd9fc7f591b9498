import Mathlib.Data.Prod.Lex
import EtherTrade.AccountsTransactionSteps
import EtherTrade.LockOrders

/-!
# The accounts database has no deadlock

Over every interleaving of calls and deliveries. A call holds the row of its account, or
the index entries of one it inserted, when it requests the entry of its key, and nothing
before. A delivery locks its accounts by id and then requests the entry of its event.
-/

namespace EtherTrade.AccountsDeadlockLaws

open KeyedRows AccountsSchema BalanceMutations TradeSettlement TradeSettlementCorrectness
open InterleavedProcesses ResourceLocks LockOrders AccountsTransactions AccountsTransactionSteps

variable {p q : ℕ} {s s' : Shared} {l l' : Process} {action : Action} {r : Resource}
  {c d : AccountsConfig} {e : Event Action} {es : List (Event Action)}

/-! ### What a statement needs -/

/-- The resources that an action of a process needs. -/
def needed (db : AccountsDb) : Process → Action → List Resource
  | .calling _ params .checked, .statement =>
    ((db.findByUserAndCurrency params.userId params.currency).map fun account =>
      .account account.id).toList
  | .calling _ params .missing, .insertAccount newId =>
    [.owner params.userId params.currency, .account newId]
  | .calling _ params (.updated _ _), .statement => [.idempotencyKey params.idempotencyKey]
  | .settling _ trade (.finding lookups), .findOrCreate q newId =>
    if lookups q = .missing then [.owner (trade.owner q).1 (trade.owner q).2, .account newId] else []
  | .settling _ _ (.locking _ (id :: _) _), .statement =>
    if (db.findById id).isSome then [.account id] else []
  | .settling envelope _ (.written _ _), .statement => [.event envelope.eventId]
  | _, _ => []

/-- The resources that the next statement of a process needs. -/
def Requests (c : AccountsConfig) (p : ℕ) (r : Resource) : Prop :=
  ∃ action, r ∈ needed c.shared.store (c.procs p) action

/-- The edges of the waits-for graph. -/
abbrev Waits (c : AccountsConfig) : ℕ → ℕ → Prop := WaitsFor (Requests c) c.shared.locks

/-! ### What a process may hold -/

/-- A row of `accounts` or an entry of its index on users and currencies. -/
def OfAccount : Resource → Prop
  | .account _ => True
  | .owner _ _ => True
  | _ => False

/-- The resources that a process may hold when it is at a point. -/
def MayHold : Process → Resource → Prop
  | .calling _ _ (.held _ _), r => OfAccount r
  | .calling _ _ (.updated _ _), r => OfAccount r
  | .calling _ _ (.written _ _), _ => True
  | .calling _ _ (.returning _), _ => True
  | .settling _ _ (.locking _ rest _), .account id => ∀ next ∈ rest, id < next
  | .settling _ _ (.written _ _), r => OfAccount r
  | .settling _ _ (.marked _ _), _ => True
  | _, _ => False

/-- What is left to lock is sorted. -/
def Sorted : Process → Prop
  | .settling _ _ (.locking _ rest _) => rest.Pairwise (· < ·)
  | _ => True

/-- A process holds only what it may hold, and locks in order. -/
structure InOrder (p : ℕ) (t : LockTable Resource) (l : Process) : Prop where
  holds : ∀ r, t r = some p → MayHold l r
  sorted : Sorted l

/-- Accounts by id, and index entries of keys and events above them. -/
def rank : Resource → Lex (ℕ × Uuid)
  | .account id => toLex (0, id)
  | .owner _ _ => toLex (0, "")
  | .idempotencyKey _ => toLex (1, "")
  | .event _ => toLex (1, "")

theorem rank_lt_of_ofAccount (h : OfAccount r) : rank r < toLex (1, "") := by
  cases r with
  | account => exact Prod.Lex.left _ _ Nat.zero_lt_one
  | owner => exact Prod.Lex.left _ _ Nat.zero_lt_one
  | idempotencyKey => exact h.elim
  | event => exact h.elim

theorem rank_lt_of_needed (hr : r ∈ needed s.store l action) {held : Resource}
    (hheld : MayHold l held) : rank held < rank r := by
  unfold needed at hr
  split at hr
  · cases hheld
  · cases hheld
  · obtain rfl := List.mem_singleton.mp hr
    exact rank_lt_of_ofAccount hheld
  · cases hheld
  · next id rest rows =>
    split at hr
    · obtain rfl := List.mem_singleton.mp hr
      cases held with
      | account heldId => exact Prod.Lex.right _ (hheld id List.mem_cons_self)
      | _ => cases hheld
    · cases hr
  · obtain rfl := List.mem_singleton.mp hr
    exact rank_lt_of_ofAccount hheld
  · cases hr

/-! ### Steps -/

/-- The locks after a step: those of others are those of before. -/
structure LocksSpec (p : ℕ) (s s' : Shared) (l' : Process) : Prop where
  own : InOrder p s'.locks l'
  others : ∀ q r, q ≠ p → s'.locks r = some q → s.locks r = some q

theorem locksSpec_same (hsorted : Sorted l') (hlocks : s'.locks = s.locks)
    (hholds : ∀ r, s.locks r = some p → MayHold l' r) : LocksSpec p s s' l' :=
  ⟨⟨fun r hr => hholds r (hlocks ▸ hr), hsorted⟩, fun _ _ _ hr => hlocks ▸ hr⟩

theorem locksSpec_release (hsorted : Sorted l') (hlocks : s'.locks = s.locks.release p) :
    LocksSpec p s s' l' := by
  refine ⟨⟨fun r hr => ?_, hsorted⟩, fun _ _ _ hr => ?_⟩
  · rw [hlocks] at hr
    exact absurd rfl (LockTable.release_eq_some.mp hr).2
  · rw [hlocks] at hr
    exact (LockTable.release_eq_some.mp hr).1

theorem locksSpec_acquire (hsorted : Sorted l')
    (hholds : ∀ r', r' = r ∨ s.locks r' = some p → MayHold l' r') :
    LocksSpec p s (takeLock p s r) l' := by
  refine ⟨⟨fun r' hr => ?_, hsorted⟩, fun q r' hq hr => ?_⟩
  · rcases LockTable.acquire_eq_some.mp hr with ⟨rfl, -⟩ | ⟨-, hr⟩
    · exact hholds r' (Or.inl rfl)
    · exact hholds r' (Or.inr hr)
  · rcases LockTable.acquire_eq_some.mp hr with ⟨-, rfl⟩ | ⟨-, hr⟩
    · exact absurd rfl hq
    · exact hr

/-- Nothing is held at a point where nothing may be held. -/
theorem InOrder.same {l₀ : Process} (h : InOrder p s.locks l₀) (hnothing : ∀ r, ¬MayHold l₀ r)
    (hsorted : Sorted l') (hlocks : s'.locks = s.locks) : LocksSpec p s s' l' :=
  locksSpec_same hsorted hlocks fun r hr => absurd (h.holds r hr) (hnothing r)

theorem callStep_locks {op : BalanceOperation} {params : BalanceParams}
    {progress progress' : CallProgress} (hi : InOrder p s.locks (.calling op params progress))
    (h : callStep p s op.mutation params progress action = some (s', progress')) :
    LocksSpec p s s' (.calling op params progress') := by
  have heffect := callStep_effect h
  cases heffect with
  | aborted => exact locksSpec_release trivial rfl
  | absent =>
    refine hi.same (fun _ hr => hr) ?_ rfl
    split <;> trivial
  | found hfound havailable =>
    refine locksSpec_acquire trivial fun r hr => ?_
    rcases hr with rfl | hr
    · trivial
    · exact (hi.holds r hr).elim
  | conflicted hconflict => exact locksSpec_release trivial rfl
  | @opened newId hcan hnew =>
    have howner : LocksSpec p s (takeLock p s (.owner params.userId params.currency))
        (.calling op params (.held (.zero newId params.userId params.currency) true)) := by
      refine locksSpec_acquire trivial fun r hr => ?_
      rcases hr with rfl | hr
      · trivial
      · exact (hi.holds r hr).elim
    have haccount : LocksSpec p (takeLock p s (.owner params.userId params.currency))
        (takeLock p (takeLock p s (.owner params.userId params.currency)) (.account newId))
        (.calling op params (.held (.zero newId params.userId params.currency) true)) := by
      refine locksSpec_acquire trivial fun r hr => ?_
      rcases hr with rfl | hr
      · trivial
      · exact howner.own.holds r hr
    exact ⟨haccount.own, fun q r hq hr => howner.others q r hq (haccount.others q r hq hr)⟩
  | refused hrefused => exact locksSpec_same trivial rfl fun _ _ => trivial
  | updated hpassed => exact locksSpec_same trivial rfl hi.holds
  | keyUsed hused => exact locksSpec_release trivial rfl
  | written havailable hunused => exact locksSpec_acquire trivial fun _ _ => trivial
  | committed => exact locksSpec_release trivial rfl
  | returned => exact locksSpec_release trivial rfl
  | _ => exact hi.same (fun _ hr => hr) trivial rfl

theorem sorted_lockOrder (ids : Participant → Uuid) : (lockOrder ids).Pairwise (· < ·) := by
  have hsorted : (lockOrder ids).Pairwise (· ≤ ·) := List.pairwise_insertionSort _ _
  have hnodup : (lockOrder ids).Nodup :=
    (List.perm_insertionSort _ _).nodup_iff.mpr (List.nodup_dedup _)
  exact (hsorted.and hnodup).imp fun ⟨hle, hne⟩ => lt_of_le_of_ne hle hne

/-- What may be held while accounts are locked may be held once one more is. -/
theorem mayHold_rest {envelope : DomainEventEnvelope} {trade : TradeExecutedEvent}
    {ids : Participant → Uuid} {id : Uuid} {rest : List Uuid} {rows rows' : List Account}
    {r : Resource} (h : MayHold (.settling envelope trade (.locking ids (id :: rest) rows)) r) :
    MayHold (.settling envelope trade (.locking ids rest rows')) r := by
  cases r with
  | account heldId => exact fun next hnext => h next (List.mem_cons_of_mem _ hnext)
  | _ => cases h

theorem settlementStep_locks {envelope : DomainEventEnvelope} {trade : TradeExecutedEvent}
    {progress progress' : SettlementProgress}
    (hi : InOrder p s.locks (.settling envelope trade progress))
    (h : settlementStep p s envelope trade progress action = some (s', progress')) :
    LocksSpec p s s' (.settling envelope trade progress') := by
  have heffect := settlementStep_effect h
  cases heffect with
  | aborted => exact locksSpec_release trivial rfl
  | lookedUp hlookup =>
    refine hi.same (fun _ hr => hr) trivial ?_
    rcases lookupStep_cases hlookup with ⟨rfl, -⟩ | ⟨account, hopens, -⟩
    · rfl
    · rw [hopens.result]
  | unprocessed => exact hi.same (fun _ hr => hr) (sorted_lockOrder _) rfl
  | missing hmissing =>
    obtain ⟨-, hrest⟩ := List.pairwise_cons.mp hi.sorted
    exact locksSpec_same hrest rfl fun r hr => mayHold_rest (hi.holds r hr)
  | locked hfound havailable =>
    obtain ⟨hfirst, hrest⟩ := List.pairwise_cons.mp hi.sorted
    refine locksSpec_acquire hrest fun r hr => ?_
    rcases hr with rfl | hr
    · exact hfirst
    · exact mayHold_rest (hi.holds r hr)
  | failed hfailed => exact locksSpec_release trivial rfl
  | written hwrites =>
    refine locksSpec_same trivial rfl fun r hr => ?_
    have hheld := hi.holds r hr
    cases r with
    | account heldId => trivial
    | _ => cases hheld
  | eventUsed => exact locksSpec_release trivial rfl
  | marked havailable hunused => exact locksSpec_acquire trivial fun _ _ => trivial
  | committed => exact locksSpec_release trivial rfl
  | skipped => exact locksSpec_release trivial rfl
  | _ => exact hi.same (fun _ hr => hr) trivial rfl

theorem step_locks (hi : InOrder p s.locks l) (h : step p s l action = some (s', l')) :
    LocksSpec p s s' l' := by
  cases l with
  | idle =>
    cases action with
    | call op params =>
      obtain ⟨rfl, rfl⟩ := Prod.mk.inj (Option.some.inj h)
      exact hi.same (fun _ hr => hr) trivial rfl
    | deliver payload =>
      simp only [step] at h
      split at h <;> obtain ⟨rfl, rfl⟩ := Prod.mk.inj (Option.some.inj h) <;>
        exact hi.same (fun _ hr => hr) trivial rfl
    | _ => cases h
  | dismissed outcome => cases h
  | calling op params progress =>
    simp only [step, Option.map_eq_some_iff, Prod.mk.injEq] at h
    obtain ⟨⟨s₁, progress'⟩, hstep, rfl, rfl⟩ := h
    exact callStep_locks hi hstep
  | settling envelope trade progress =>
    simp only [step, Option.map_eq_some_iff, Prod.mk.injEq] at h
    obtain ⟨⟨s₁, progress'⟩, hstep, rfl, rfl⟩ := h
    exact settlementStep_locks hi hstep

/-! ### Waiting -/

theorem canInsertAccount_iff {account : Account} : CanInsertAccount p s account ↔
    ∀ r ∈ [.owner account.userId account.currency, .account account.id],
      s.locks.Available p r := by
  simp [CanInsertAccount]

/-- An action of a call is impossible when it is not its next one, or when it needs what
another process holds. -/
theorem callStep_eq_none {op : BalanceOperation} {params : BalanceParams}
    {progress : CallProgress} : callStep p s op.mutation params progress action = none ↔
      callStep p ⟨s.store, LockTable.free⟩ op.mutation params progress action = none ∨
        ∃ r ∈ needed s.store (.calling op params progress) action, ¬s.locks.Available p r := by
  cases progress with
  | checked =>
    cases action with
    | statement =>
      simp only [callStep, needed]
      cases s.store.findByUserAndCurrency params.userId params.currency with
      | none => simp
      | some account =>
        by_cases havailable : s.locks.Available p (.account account.id) <;> simp [havailable]
    | _ => simp [callStep, needed]
  | missing =>
    cases action with
    | insertAccount newId =>
      have hfree : CanInsertAccount p ⟨s.store, LockTable.free⟩
          (.zero newId params.userId params.currency) :=
        ⟨LockTable.available_free .., LockTable.available_free ..⟩
      by_cases hcan : CanInsertAccount p s (.zero newId params.userId params.currency)
      · have hneeded : ∀ r ∈ needed s.store (.calling op params .missing) (.insertAccount newId),
            s.locks.Available p r := canInsertAccount_iff.mp hcan
        simp only [callStep, if_pos hcan, if_pos hfree]
        split <;> simpa using hneeded
      · have hneeded : ¬∀ r ∈ needed s.store (.calling op params .missing) (.insertAccount newId),
            s.locks.Available p r := fun h => hcan (canInsertAccount_iff.mpr h)
        simp only [callStep, if_neg hcan, true_iff]
        exact Or.inr (by simpa using hneeded)
    | _ => simp [callStep, needed]
  | updated account opened =>
    cases action with
    | statement =>
      by_cases havailable : s.locks.Available p (.idempotencyKey params.idempotencyKey)
      · simp only [callStep, needed, if_pos havailable, LockTable.available_free]
        split <;> simp [havailable]
      · simp [callStep, needed, havailable]
    | _ => simp [callStep, needed]
  | _ => cases action <;> simp [callStep, needed] <;> split <;> simp

theorem lookupStep_eq_none {owner : Uuid × Currency} {newId : Uuid} {lookup : Lookup} :
    lookupStep p s owner newId lookup = none ↔
      lookupStep p ⟨s.store, LockTable.free⟩ owner newId lookup = none ∨
        lookup = .missing ∧ ¬CanInsertAccount p s (.zero newId owner.1 owner.2) := by
  cases lookup with
  | missing =>
    have hfree : CanInsertAccount p ⟨s.store, LockTable.free⟩ (.zero newId owner.1 owner.2) :=
      ⟨LockTable.available_free .., LockTable.available_free ..⟩
    by_cases hcan : CanInsertAccount p s (.zero newId owner.1 owner.2)
    · simp only [lookupStep, if_pos hcan, if_pos hfree]
      split <;> simp [hcan]
    · simp [lookupStep, hcan]
  | _ => simp [lookupStep] <;> split <;> simp

theorem settlementStep_eq_none {envelope : DomainEventEnvelope} {trade : TradeExecutedEvent}
    {progress : SettlementProgress} : settlementStep p s envelope trade progress action = none ↔
      settlementStep p ⟨s.store, LockTable.free⟩ envelope trade progress action = none ∨
        ∃ r ∈ needed s.store (.settling envelope trade progress) action,
          ¬s.locks.Available p r := by
  cases progress with
  | finding lookups =>
    cases action with
    | findOrCreate q newId =>
      simp only [settlementStep, Option.map_eq_none_iff, needed]
      rw [lookupStep_eq_none]
      by_cases hmissing : lookups q = .missing
      · simp [hmissing, canInsertAccount_iff, Account.zero, imp_iff_not_or]
      · simp [hmissing]
    | statement =>
      simp only [settlementStep, needed]
      split <;> simp
    | _ => simp [settlementStep, needed]
  | locking ids rest rows =>
    cases rest with
    | nil =>
      cases action with
      | statement =>
        simp only [settlementStep, needed]
        split
        · split <;> simp
        · simp
      | _ => simp [settlementStep, needed]
    | cons id rest =>
      cases action with
      | statement =>
        simp only [settlementStep, needed]
        cases s.store.findById id with
        | none => simp
        | some account => by_cases havailable : s.locks.Available p (.account id) <;> simp [havailable]
      | _ => simp [settlementStep, needed]
  | written ids writes =>
    cases action with
    | statement =>
      by_cases havailable : s.locks.Available p (.event envelope.eventId)
      · simp only [settlementStep, needed, if_pos havailable, LockTable.available_free]
        split <;> simp [havailable]
      · simp [settlementStep, needed, havailable]
    | _ => simp [settlementStep, needed]
  | _ => cases action <;> simp [settlementStep, needed] <;> split <;> simp

theorem step_eq_none : step p s l action = none ↔
    step p ⟨s.store, LockTable.free⟩ l action = none ∨
      ∃ r ∈ needed s.store l action, ¬s.locks.Available p r := by
  cases l with
  | idle =>
    cases action with
    | deliver payload =>
      simp only [step, needed]
      split <;> simp
    | _ => simp [step, needed]
  | dismissed outcome => cases action <;> simp [step, needed]
  | calling op params progress =>
    simp only [step, Option.map_eq_none_iff]
    exact callStep_eq_none
  | settling envelope trade progress =>
    simp only [step, Option.map_eq_none_iff]
    exact settlementStep_eq_none

/-- A process whose next action is impossible waits for another. -/
theorem exists_waits (hnext : step p ⟨c.shared.store, LockTable.free⟩ (c.procs p) action ≠ none)
    (hblocked : step p c.shared (c.procs p) action = none) : ∃ q, Waits c p q := by
  obtain hnone | ⟨r, hr, hheld⟩ := step_eq_none.mp hblocked
  · exact absurd hnone hnext
  · rw [LockTable.Available, not_or] at hheld
    obtain ⟨q, hq⟩ := Option.ne_none_iff_exists'.mp hheld.1
    exact ⟨q, fun hpq => hheld.2 (hpq ▸ hq), r, ⟨action, hr⟩, hq⟩

/-! ### Runs -/

/-- Every process holds what it may hold. -/
def LocksInOrder (c : AccountsConfig) : Prop := ∀ p, InOrder p c.shared.locks (c.procs p)

theorem locksInOrder_initial : LocksInOrder initial := by
  intro p
  refine ⟨fun r hr => ?_, trivial⟩
  cases hr

theorem locksInOrder_next (hc : LocksInOrder c) (h : accountsSystem.next c e = some d) :
    LocksInOrder d := by
  obtain ⟨s, l, hs, rfl⟩ := System.next_eq_some.mp h
  obtain ⟨hown, hothers⟩ := step_locks (hc e.proc) hs
  intro q
  by_cases hq : q = e.proc
  · subst hq
    simpa using hown
  · have hkept : InOrder q s.locks (c.procs q) :=
      ⟨fun r hr => (hc q).holds r (hothers q r hq hr), (hc q).sorted⟩
    simpa [Function.update_of_ne hq] using hkept

theorem LocksInOrder.ranked (hc : LocksInOrder c) : Ranked rank (Requests c) c.shared.locks := by
  intro p r held hr hheld
  obtain ⟨action, hneeded⟩ := hr
  exact rank_lt_of_needed hneeded ((hc p).holds held hheld)

/-- The accounts database has no deadlock: in every reachable state of any number of
concurrent balance calls and settlements, the waits-for graph has no cycle. -/
theorem waits_acyclic (h : accountsSystem.exec initial es = some c) (p : ℕ) :
    ¬Relation.TransGen (Waits c) p p := by
  have hc : LocksInOrder c :=
    System.exec_invariant h locksInOrder_initial fun _ _ _ => locksInOrder_next
  exact hc.ranked.acyclic p

/-- Two first deposits of one user, the second of which waits for the first. -/
def waitingDeposit : List (Event Action) :=
  [⟨0, .call .deposit ⟨"user", .usdt, .coins 1, "first", none⟩⟩, ⟨0, .statement⟩, ⟨0, .statement⟩,
    ⟨1, .call .deposit ⟨"user", .usdt, .coins 2, "second", none⟩⟩, ⟨1, .statement⟩, ⟨1, .statement⟩,
    ⟨0, .insertAccount "account"⟩]

theorem waitingDeposit_executes : (accountsSystem.exec initial waitingDeposit).isSome = true := by
  decide +kernel

theorem waits_acyclic_waitingDeposit :
    let c := (accountsSystem.exec initial waitingDeposit).get waitingDeposit_executes
    Waits c 1 0 ∧ ∀ p, ¬Relation.TransGen (Waits c) p p :=
  ⟨⟨by decide, .owner "user" .usdt, ⟨.insertAccount "other", by decide +kernel⟩, by decide +kernel⟩,
    fun p => waits_acyclic (Option.some_get _).symm p⟩

end EtherTrade.AccountsDeadlockLaws
