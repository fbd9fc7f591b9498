import EtherTrade.CopiedOrders
import EtherTrade.CopyTradingService

/-!
# The steps of the subscription calls

What one step does to the subscriptions and to the counters of masters, and what a call
knows of the subscription that it writes.
-/

namespace EtherTrade.CopyTradingServiceSteps

open KeyedRows AccountsSchema CopyTradingSchema InterleavedProcesses CopyTradingService
open MasterTradeReplicationSteps (SubscriptionsKept subscriptionsKept_of_eq
  subscriptionsKept_setSubscription createSubscription_cases)
open CopiedOrders (Known)

variable {s s' : ServiceStore} {l l' : Process} {action : Action} {db : CopyTradingDb}
  {request : CreateSubscriptionRequest} {cancel : CancelSubscriptionRequest}
  {existingSub : Option CopySubscription} {sub row : CopySubscription} {userId : Uuid}
  {creating creating' : Creating} {cancelling cancelling' : Cancelling} {balancing : Balancing}
  {next : Balancing ⊕ ℕ} {c d : ServiceConfig} {e : Event Action}

/-! ### Steps -/

/-- The master whose counter the next statement of a call changes, and by how much. -/
def pendingCopier : Process → Option (Uuid × ℤ)
  | .creating request (.incrementing _) => some (request.masterId, 1)
  | .cancelling _ (.decrementing sub _) => some (sub.masterId, -1)
  | _ => none

/-- What a call becomes that has written: it goes on if it learns of it. -/
def afterWrite (request : CreateSubscriptionRequest) (action : Action) (row : CopySubscription) :
    Process :=
  .creating request (if acknowledged action then .incrementing row else .thrown .infrastructure)

/-- What one step does to the subscriptions and to the counters. -/
inductive ServiceStep (s : ServiceStore) : Process → Action → ServiceStore → Process → Prop
  | quiet {l l' : Process} {action : Action} {s' : ServiceStore} (hmasters : s'.masters = s.masters)
      (hdb : s'.db = s.db) (hafter : pendingCopier l' = none)
      (hbefore : pendingCopier l = none ∨ action = .fail) : ServiceStep s l action s' l'
  | registered {id userId : Uuid} {minDeposit : ℤ} (hid : findMaster s id = none) :
      ServiceStep s .idle (.registerMaster id userId minDeposit)
        { s with masters := s.masters ++ [⟨id, userId, minDeposit, 0, true⟩] } .idle
  | inserted {request : CreateSubscriptionRequest} {newId : Uuid} {action : Action}
      {db : CopyTradingDb}
      (hcreate : s.db.createSubscription (newSubscription request newId) = some db)
      (haction : action ≠ .fail) :
      ServiceStep s (.creating request (.writing none)) action (setDb s db)
        (afterWrite request action (newSubscription request newId))
  | reactivated {request : CreateSubscriptionRequest} {sub row : CopySubscription}
      {action : Action} (haction : action ≠ .fail) :
      ServiceStep s (.creating request (.writing (some sub))) action
        (setDb s (s.db.reactivateSubscription sub.id request.allocatedBalance.units
          (maxSlippage request))) (afterWrite request action row)
  | terminated {request : CancelSubscriptionRequest} {sub : CopySubscription} {action : Action}
      {cancelling : Cancelling} (haction : action ≠ .fail)
      (hnext : if acknowledged action then ∃ updated, cancelling = .decrementing sub updated
        else ∃ failure, cancelling = .thrown failure) :
      ServiceStep s (.cancelling request (.terminating sub)) action
        (setDb s (s.db.updateStatus sub.id .terminated)) (.cancelling request cancelling)
  | counted {l l' : Process} {action : Action} {masterId : Uuid} {delta : ℤ}
      (hbefore : pendingCopier l = some (masterId, delta)) (hafter : pendingCopier l' = none) :
      ServiceStep s l action (incrementCopiers s masterId delta) l'

/-- What one step of `getMasterOrFollowerBalance` does. -/
inductive BalanceStep (s : ServiceStore) (userId : Uuid) :
    Balancing → Action → ServiceStore → Balancing ⊕ ℕ → Prop
  | missed {action : Action} : BalanceStep s userId .reading action s (.inl .fetching)
  | cached {available : ℕ} (hcached : cachedBalance s userId = some available) :
    BalanceStep s userId .reading .statement s (.inr available)
  | fetched : BalanceStep s userId .fetching .statement s (.inl (.caching (s.balances userId)))
  | unknown {action : Action} : BalanceStep s userId .fetching action s (.inr 0)
  | stored {available : ℕ} {action : Action} :
    BalanceStep s userId (.caching available) action (cacheBalance s userId available)
      (.inr available)
  | unstored {available : ℕ} {action : Action} :
    BalanceStep s userId (.caching available) action s (.inr available)

theorem balanceStep_cases (h : balanceStep s userId balancing action = some (s', next)) :
    BalanceStep s userId balancing action s' next := by
  cases balancing with
  | reading =>
    cases action with
    | statement =>
      simp only [balanceStep] at h
      split at h
      · next hcached =>
        cases h
        exact .cached hcached
      · cases h
        exact .missed
    | _ => cases h <;> exact .missed
  | fetching =>
    cases action with
    | statement =>
      cases h
      exact .fetched
    | _ => cases h <;> exact .unknown
  | caching available =>
    cases action with
    | statement =>
      cases h
      exact .stored
    | _ => cases h <;> exact .unstored

/-- `getMasterOrFollowerBalance` writes nothing but the cache. -/
theorem balanceStep_store (h : balanceStep s userId balancing action = some (s', next)) :
    s'.masters = s.masters ∧ s'.db = s.db ∧ s'.balances = s.balances := by
  cases balanceStep_cases h <;> exact ⟨rfl, rfl, rfl⟩

/-- A write inserts a row of the request, or updates the existing one. -/
theorem writeSubscription_cases {r : CopyTradingDb × CopySubscription}
    (h : writeSubscription s request existingSub action = some r) :
    (existingSub = none ∧ ∃ newId, s.db.createSubscription (newSubscription request newId) =
      some r.1 ∧ r.2 = newSubscription request newId) ∨
    ∃ sub, existingSub = some sub ∧ r.1 = s.db.reactivateSubscription sub.id
      request.allocatedBalance.units (maxSlippage request) := by
  cases existingSub with
  | none =>
    have hinsert {newId : Uuid} (h : (if fits request then
        (s.db.createSubscription (newSubscription request newId)).map fun db =>
          (db, newSubscription request newId) else none) = some r) :
        s.db.createSubscription (newSubscription request newId) = some r.1 ∧
          r.2 = newSubscription request newId := by
      split at h
      · obtain ⟨db, hcreate, rfl⟩ := Option.map_eq_some_iff.mp h
        exact ⟨hcreate, rfl⟩
      · cases h
    cases action with
    | insert newId => exact Or.inl ⟨rfl, newId, hinsert h⟩
    | insertUnacknowledged newId => exact Or.inl ⟨rfl, newId, hinsert h⟩
    | _ => cases h
  | some sub =>
    have hupdate (h : (if fits request then
        let db := s.db.reactivateSubscription sub.id request.allocatedBalance.units
          (maxSlippage request)
        (findById db sub.id).map fun row => (db, row) else none) = some r) :
        r.1 = s.db.reactivateSubscription sub.id request.allocatedBalance.units
          (maxSlippage request) := by
      split at h
      · obtain ⟨row, -, rfl⟩ := Option.map_eq_some_iff.mp h
        rfl
      · cases h
    cases action with
    | statement => exact Or.inr ⟨sub, rfl, hupdate h⟩
    | unacknowledged => exact Or.inr ⟨sub, rfl, hupdate h⟩
    | _ => cases h

theorem writeSubscription_step {r : CopyTradingDb × CopySubscription} (haction : action ≠ .fail)
    (h : writeSubscription s request existingSub action = some r) :
    ServiceStep s (.creating request (.writing existingSub)) action (setDb s r.1)
      (afterWrite request action r.2) := by
  rcases writeSubscription_cases h with ⟨rfl, newId, hcreate, hrow⟩ | ⟨sub, rfl, hdb⟩
  · rw [hrow]
    exact .inserted hcreate haction
  · rw [hdb]
    exact .reactivated haction

/-- What one step of `createSubscription` does. -/
inductive CreateStep (s : ServiceStore) (request : CreateSubscriptionRequest) :
    Creating → Action → ServiceStore → Creating → Prop
  | threw {creating : Creating} {action : Action}
      {failure : OrdersTransactions.Failure}
      (hbefore : pendingCopier (.creating request creating) = none ∨ action = .fail) :
    CreateStep s request creating action s (.thrown failure)
  | found {action : Action} {master : MasterTrader}
      (hmaster : findMaster s request.masterId = some master) :
    CreateStep s request .finding action s .checking
  | checked {action : Action} :
    CreateStep s request .checking action s (.balancing
      (findByFollowerAndMaster s.db request.followerUserId request.masterId) .reading)
  | balanced {existingSub : Option CopySubscription} {progress progress' : Balancing}
      {action : Action} {s' : ServiceStore}
      (hbalance : BalanceStep s request.followerUserId progress action s' (.inl progress'))
      (hmasters : s'.masters = s.masters) (hdb : s'.db = s.db) :
    CreateStep s request (.balancing existingSub progress) action s'
      (.balancing existingSub progress')
  | answered {existingSub : Option CopySubscription} {progress : Balancing} {action : Action}
      {s' : ServiceStore} {availableUsdt : ℕ}
      (hbalance : BalanceStep s request.followerUserId progress action s' (.inr availableUsdt))
      (hmasters : s'.masters = s.masters) (hdb : s'.db = s.db) :
    CreateStep s request (.balancing existingSub progress) action s'
      (.allocating existingSub availableUsdt)
  | allocated {existingSub : Option CopySubscription} {availableUsdt : ℕ} {action : Action}
      (hle : currentAllocated s.db request.followerUserId existingSub +
        request.allocatedBalance.units ≤ availableUsdt) :
    CreateStep s request (.allocating existingSub availableUsdt) action s (.writing existingSub)
  | wrote {existingSub : Option CopySubscription} {action : Action}
      {r : CopyTradingDb × CopySubscription} (haction : action ≠ .fail)
      (hwrite : writeSubscription s request existingSub action = some r) :
    CreateStep s request (.writing existingSub) action (setDb s r.1)
      (if acknowledged action then .incrementing r.2 else .thrown .infrastructure)
  | incremented {subscription : CopySubscription} {action : Action} {creating' : Creating}
      (hafter : creating' = .returned subscription ∨ creating' = .thrown .infrastructure) :
    CreateStep s request (.incrementing subscription) action
      (incrementCopiers s request.masterId 1) creating'

theorem createStep_cases (h : createStep s request creating action = some (s', creating')) :
    CreateStep s request creating action s' creating' := by
  have hfail (h : some (s, Creating.thrown .infrastructure) = some (s', creating'))
      (haction : action = .fail) : CreateStep s request creating action s' creating' := by
    cases h
    exact .threw (Or.inr haction)
  cases creating with
  | finding =>
    cases action with
    | statement =>
      simp only [createStep] at h
      split at h
      · cases h
        exact .threw (Or.inl rfl)
      · next master hfound =>
        split at h <;> cases h
        · exact .threw (Or.inl rfl)
        · exact .found (Option.filter_eq_some_iff.mp hfound).1
    | fail => exact hfail h rfl
    | _ => cases h
  | checking =>
    cases action with
    | statement =>
      simp only [createStep] at h
      split at h <;> cases h
      · exact .threw (Or.inl rfl)
      · exact .checked
    | fail => exact hfail h rfl
    | _ => cases h
  | balancing existingSub progress =>
    obtain ⟨⟨s₁, next⟩, hbalance, hr⟩ := Option.map_eq_some_iff.mp h
    obtain ⟨hmasters, hdb, -⟩ := balanceStep_store hbalance
    cases next with
    | inl progress' =>
      cases hr
      exact .balanced (balanceStep_cases hbalance) hmasters hdb
    | inr availableUsdt =>
      cases hr
      exact .answered (balanceStep_cases hbalance) hmasters hdb
  | allocating existingSub availableUsdt =>
    cases action with
    | statement =>
      simp only [createStep] at h
      split at h <;> cases h
      · exact .threw (Or.inl rfl)
      · next hle => exact .allocated (not_lt.mp hle)
    | fail => exact hfail h rfl
    | _ => cases h
  | writing existingSub =>
    have hwrite (haction : action ≠ .fail) (h : (writeSubscription s request existingSub
        action).map (fun r => (setDb s r.1, if acknowledged action then Creating.incrementing r.2
          else .thrown .infrastructure)) = some (s', creating')) :
        CreateStep s request (.writing existingSub) action s' creating' := by
      obtain ⟨r, hwrite, hr⟩ := Option.map_eq_some_iff.mp h
      cases hr
      exact .wrote haction hwrite
    cases action with
    | fail => exact hfail h rfl
    | _ => exact hwrite nofun h
  | incrementing subscription =>
    cases action with
    | statement =>
      cases h
      exact .incremented (Or.inl rfl)
    | unacknowledged =>
      cases h
      exact .incremented (Or.inr rfl)
    | fail => exact hfail h rfl
    | _ => cases h
  | _ => cases h

theorem CreateStep.serviceStep (h : CreateStep s request creating action s' creating') :
    ServiceStep s (.creating request creating) action s' (.creating request creating') := by
  cases h with
  | threw hbefore => exact .quiet rfl rfl rfl hbefore
  | found => exact .quiet rfl rfl rfl (Or.inl rfl)
  | checked => exact .quiet rfl rfl rfl (Or.inl rfl)
  | balanced _ hmasters hdb => exact .quiet hmasters hdb rfl (Or.inl rfl)
  | answered _ hmasters hdb => exact .quiet hmasters hdb rfl (Or.inl rfl)
  | allocated => exact .quiet rfl rfl rfl (Or.inl rfl)
  | wrote haction hwrite => exact writeSubscription_step haction hwrite
  | incremented hafter => rcases hafter with rfl | rfl <;> exact .counted rfl rfl

theorem cancelStep_cases (h : cancelStep s cancel cancelling action = some (s', cancelling')) :
    ServiceStep s (.cancelling cancel cancelling) action s' (.cancelling cancel cancelling') := by
  have hfail (h : some (s, Cancelling.thrown .infrastructure) = some (s', cancelling'))
      (haction : action = .fail) :
      ServiceStep s (.cancelling cancel cancelling) action s' (.cancelling cancel cancelling') := by
    cases h
    exact .quiet rfl rfl rfl (Or.inr haction)
  cases cancelling with
  | finding =>
    cases action with
    | statement =>
      simp only [cancelStep] at h
      split at h <;> cases h
      · exact .quiet rfl rfl rfl (Or.inl rfl)
      · refine .quiet rfl rfl ?_ (Or.inl rfl)
        split <;> rfl
    | fail => exact hfail h rfl
    | _ => cases h
  | terminating sub =>
    cases action with
    | statement =>
      obtain ⟨updated, -, hr⟩ := Option.map_eq_some_iff.mp h
      cases hr
      exact .terminated nofun ⟨updated, rfl⟩
    | unacknowledged =>
      cases h
      exact .terminated nofun ⟨_, rfl⟩
    | fail => exact hfail h rfl
    | _ => cases h
  | decrementing sub updated =>
    cases action with
    | statement =>
      cases h
      exact .counted rfl rfl
    | unacknowledged =>
      cases h
      exact .counted rfl rfl
    | fail => exact hfail h rfl
    | _ => cases h
  | _ => cases h

theorem step_cases (h : step s l action = some (s', l')) : ServiceStep s l action s' l' := by
  cases l with
  | idle =>
    cases action with
    | registerMaster id userId minDeposit =>
      obtain ⟨s₁, hregister, hr⟩ := Option.map_eq_some_iff.mp h
      cases hr
      obtain ⟨masters, hcreate, hs⟩ := Option.map_eq_some_iff.mp hregister
      cases hs
      unfold createMaster at hcreate
      split at hcreate
      · cases hcreate
      · next hnew =>
        cases hcreate
        rw [Bool.or_eq_true, not_or] at hnew
        exact .registered (by simpa [findMaster] using hnew.1)
    | _ => cases h <;> exact .quiet rfl rfl rfl (Or.inl rfl)
  | creating request progress =>
    obtain ⟨⟨s₁, progress'⟩, hstep, hr⟩ := Option.map_eq_some_iff.mp h
    cases hr
    exact (createStep_cases hstep).serviceStep
  | cancelling request progress =>
    obtain ⟨⟨s₁, progress'⟩, hstep, hr⟩ := Option.map_eq_some_iff.mp h
    cases hr
    exact cancelStep_cases hstep
  | balancing userId progress =>
    obtain ⟨⟨s₁, next⟩, hbalance, hr⟩ := Option.map_eq_some_iff.mp h
    obtain ⟨hmasters, hdb, -⟩ := balanceStep_store hbalance
    cases next <;> cases hr <;> exact .quiet hmasters hdb rfl (Or.inl rfl)
  | answered available => cases h

/-! ### What no step undoes -/

/-- Subscriptions and masters stay. -/
structure StoreKept (s s' : ServiceStore) : Prop where
  subscriptions : SubscriptionsKept s.db s'.db
  masters : ∀ id, (findMaster s id).isSome → (findMaster s' id).isSome

theorem lookup_incrementCopiers {masterId id : Uuid} {delta : ℤ} :
    findMaster (incrementCopiers s masterId delta) id = (findMaster s id).map fun master =>
      if master.id = masterId then { master with totalCopiers := max 0 (master.totalCopiers + delta) }
      else master := by
  refine lookup_map fun master _ => ?_
  split <;> rfl

theorem storeKept_step (h : ServiceStep s l action s' l') : StoreKept s s' := by
  cases h with
  | quiet hmasters hdb =>
    refine ⟨subscriptionsKept_of_eq (congrArg CopyTradingDb.copySubscriptions hdb), fun id hid => ?_⟩
    rwa [findMaster, hmasters]
  | registered hid =>
    refine ⟨subscriptionsKept_of_eq rfl, fun id hsome => ?_⟩
    obtain ⟨master, hmaster⟩ := Option.isSome_iff_exists.mp hsome
    simp only [findMaster] at hmaster ⊢
    rw [lookup_append_singleton, hmaster]
    rfl
  | inserted hcreate => exact ⟨(createSubscription_cases hcreate).2, fun _ => id⟩
  | reactivated =>
    exact ⟨subscriptionsKept_setSubscription _ (fun _ => rfl) fun _ => rfl, fun _ => id⟩
  | terminated =>
    exact ⟨subscriptionsKept_setSubscription _ (fun _ => rfl) fun _ => rfl, fun _ => id⟩
  | counted =>
    refine ⟨subscriptionsKept_of_eq rfl, fun id hsome => ?_⟩
    rwa [lookup_incrementCopiers, Option.isSome_map]

/-! ### What calls know -/

/-- The call has read a subscription of its follower and its master, if any. -/
def KnowsExisting (s : ServiceStore) (request : CreateSubscriptionRequest)
    (existingSub : Option CopySubscription) : Prop :=
  ∀ sub, existingSub = some sub →
    Known s.db sub ∧ sub.follows = (request.followerUserId, request.masterId)

def CreateKnows (s : ServiceStore) (request : CreateSubscriptionRequest) : Creating → Prop
  | .checking => (findMaster s request.masterId).isSome
  | .balancing existingSub _ =>
    (findMaster s request.masterId).isSome ∧ KnowsExisting s request existingSub
  | .allocating existingSub _ =>
    (findMaster s request.masterId).isSome ∧ KnowsExisting s request existingSub
  | .writing existingSub =>
    (findMaster s request.masterId).isSome ∧ KnowsExisting s request existingSub
  | .incrementing _ => (findMaster s request.masterId).isSome
  | _ => True

def CancelKnows (s : ServiceStore) : Cancelling → Prop
  | .terminating sub => Known s.db sub
  | .decrementing sub _ => Known s.db sub
  | _ => True

def Knows (s : ServiceStore) : Process → Prop
  | .creating request progress => CreateKnows s request progress
  | .cancelling _ progress => CancelKnows s progress
  | _ => True

theorem KnowsExisting.kept (hkept : StoreKept s s') (h : KnowsExisting s request existingSub) :
    KnowsExisting s' request existingSub := by
  intro sub hsub
  obtain ⟨hknown, hfollows⟩ := h sub hsub
  exact ⟨hknown.kept hkept.subscriptions, hfollows⟩

theorem CreateKnows.kept (hkept : StoreKept s s') (h : CreateKnows s request creating) :
    CreateKnows s' request creating := by
  cases creating with
  | checking => exact hkept.masters _ h
  | balancing => exact ⟨hkept.masters _ h.1, h.2.kept hkept⟩
  | allocating => exact ⟨hkept.masters _ h.1, h.2.kept hkept⟩
  | writing => exact ⟨hkept.masters _ h.1, h.2.kept hkept⟩
  | incrementing => exact hkept.masters _ h
  | _ => trivial

theorem Knows.kept (hkept : StoreKept s s') (h : Knows s l) : Knows s' l := by
  cases l with
  | creating request progress => exact CreateKnows.kept hkept h
  | cancelling request progress =>
    cases progress with
    | terminating sub => exact Known.kept hkept.subscriptions h
    | decrementing sub updated => exact Known.kept hkept.subscriptions h
    | _ => trivial
  | _ => trivial

theorem known_of_lookup {κ : Type} [DecidableEq κ] {key : CopySubscription → κ} {k : κ}
    (h : lookup key db.copySubscriptions k = some sub) : Known db sub :=
  ⟨sub, (lookup_mem h).1, rfl, rfl⟩

/-- What a call knows after a step, of the store that it started from. -/
theorem createKnows_step (h : CreateKnows s request creating)
    (hstep : CreateStep s request creating action s' creating') :
    CreateKnows s request creating' := by
  cases hstep with
  | threw => trivial
  | found hmaster => exact Option.isSome_iff_exists.mpr ⟨_, hmaster⟩
  | checked => exact ⟨h, fun sub hsub => ⟨known_of_lookup hsub, (lookup_mem hsub).2⟩⟩
  | balanced => exact h
  | answered => exact h
  | allocated => exact h
  | wrote =>
    split
    · exact h.1
    · trivial
  | incremented hafter => rcases hafter with rfl | rfl <;> trivial

theorem cancelKnows_step (h : CancelKnows s cancelling)
    (hstep : cancelStep s cancel cancelling action = some (s', cancelling')) :
    CancelKnows s cancelling' := by
  cases cancelling with
  | finding =>
    cases action with
    | statement =>
      simp only [cancelStep] at hstep
      split at hstep <;> cases hstep
      · trivial
      · next sub hfound =>
        obtain ⟨hsub, -⟩ := Option.filter_eq_some_iff.mp hfound
        split
        · trivial
        · exact known_of_lookup hsub
    | fail =>
      cases hstep
      trivial
    | _ => cases hstep
  | terminating sub =>
    cases action with
    | statement =>
      obtain ⟨updated, -, hr⟩ := Option.map_eq_some_iff.mp hstep
      cases hr
      exact h
    | unacknowledged =>
      cases hstep
      trivial
    | fail =>
      cases hstep
      trivial
    | _ => cases hstep
  | decrementing sub updated => cases action <;> cases hstep <;> trivial
  | _ => cases hstep

theorem knows_step (h : Knows s l) (hstep : step s l action = some (s', l')) : Knows s l' := by
  cases l with
  | idle =>
    cases action with
    | registerMaster id userId minDeposit =>
      obtain ⟨s₁, -, hr⟩ := Option.map_eq_some_iff.mp hstep
      cases hr
      trivial
    | _ => cases hstep <;> trivial
  | creating request progress =>
    obtain ⟨⟨s₁, progress'⟩, hcreate, hr⟩ := Option.map_eq_some_iff.mp hstep
    cases hr
    exact createKnows_step h (createStep_cases hcreate)
  | cancelling request progress =>
    obtain ⟨⟨s₁, progress'⟩, hcancel, hr⟩ := Option.map_eq_some_iff.mp hstep
    cases hr
    exact cancelKnows_step h hcancel
  | balancing userId progress =>
    obtain ⟨⟨s₁, next⟩, -, hr⟩ := Option.map_eq_some_iff.mp hstep
    cases next <;> cases hr <;> trivial
  | answered available => cases hstep

/-- What holds of subscriptions and calls at any time. -/
structure Consistent (c : ServiceConfig) : Prop where
  ids : KeyUnique CopySubscription.id c.shared.db.copySubscriptions
  known : ∀ row ∈ c.shared.db.copySubscriptions, (findMaster c.shared row.masterId).isSome
  processes : ∀ p, Knows c.shared (c.procs p)

theorem known_step (hknows : Knows s l) (h : ServiceStep s l action s' l')
    (hknown : ∀ row ∈ s.db.copySubscriptions, (findMaster s row.masterId).isSome) :
    ∀ row ∈ s'.db.copySubscriptions, (findMaster s' row.masterId).isSome := by
  have hkept := (storeKept_step h).masters
  have hset {id : Uuid} {f : CopySubscription → CopySubscription} {row : CopySubscription}
      (hrow : row ∈ (s.db.setSubscription id f).copySubscriptions)
      (hf : ∀ row, (f row).masterId = row.masterId) : (findMaster s row.masterId).isSome := by
    obtain ⟨old, hold, rfl⟩ := List.mem_map.mp hrow
    split
    · rw [hf]
      exact hknown old hold
    · exact hknown old hold
  intro row hrow
  refine hkept _ ?_
  cases h with
  | quiet hmasters hdb =>
    rw [hdb] at hrow
    exact hknown row hrow
  | registered => exact hknown row hrow
  | inserted hcreate =>
    unfold CopyTradingDb.createSubscription at hcreate
    split at hcreate <;> cases hcreate
    rcases List.mem_append.mp hrow with hold | hnew
    · exact hknown row hold
    · obtain rfl := List.mem_singleton.mp hnew
      exact hknows.1
  | reactivated => exact hset hrow fun _ => rfl
  | terminated => exact hset hrow fun _ => rfl
  | counted => exact hknown row hrow

theorem consistent_next (hc : Consistent c) (hnext : copyTradingSystem.next c e = some d) :
    Consistent d := by
  obtain ⟨s', l', hstep, rfl⟩ := System.next_eq_some.mp hnext
  have hservice : ServiceStep c.shared (c.procs e.proc) e.action s' l' := step_cases hstep
  have hkept := storeKept_step hservice
  refine ⟨hkept.subscriptions.ids hc.ids, known_step (hc.processes e.proc) hservice hc.known,
    fun p => ?_⟩
  by_cases hp : p = e.proc
  · subst hp
    simpa using (knows_step (hc.processes e.proc) hstep).kept hkept
  · simpa only [Function.update_of_ne hp] using (hc.processes p).kept hkept

theorem consistent_initial : Consistent initial where
  ids := keyUnique_nil
  known _ hrow := absurd hrow List.not_mem_nil
  processes _ := trivial

end EtherTrade.CopyTradingServiceSteps
