import EtherTrade.CopierCountLaws

/-!
# Allocations within the balance

A new subscription is admitted by the balance and the active subscriptions that its call has
read. Where a cached balance is still there, and no other call of the follower writes a
subscription between the read of a call and its return, what is active when a call returns
was covered by the balance at some moment of the call.
-/

namespace EtherTrade.CopyAllocationLaws

open KeyedRows AccountsSchema CopyTradingSchema InterleavedProcesses CopyTradingService
open CopyTradingServiceSteps
open CopierCountLaws (inProgress perform)
open CopiedOrders (Known)

variable {s s' : ServiceStore} {l l' : Process} {action : Action} {db db' : CopyTradingDb}
  {request : CreateSubscriptionRequest} {sub row : CopySubscription} {follower : Uuid}
  {existingSub : Option CopySubscription} {creating creating' : Creating}
  {c d : ServiceConfig} {e : Event Action} {es : List (Event Action)} {p : ℕ} {n m : ℤ}

abbrev ServiceTransition := System.Transition ServiceStore Process Action

variable {t u : ServiceTransition} {ts : List ServiceTransition}

/-! ### Allocations -/

/-- The subscription counts for a call of the follower. -/
def counted (follower : Uuid) (existingSub : Option CopySubscription) (row : CopySubscription) :
    Bool :=
  existingSub.all (fun existing => row.id ≠ existing.id) &&
    decide (row.followerUserId = follower ∧ row.status = .active)

/-- What one subscription adds to the allocations. -/
def allocation (follower : Uuid) (existingSub : Option CopySubscription) (row : CopySubscription) :
    ℤ :=
  if counted follower existingSub row then row.allocatedBalance else 0

theorem currentAllocated_eq_sum (db : CopyTradingDb) (follower : Uuid)
    (existingSub : Option CopySubscription) : currentAllocated db follower existingSub =
      (db.copySubscriptions.map (allocation follower existingSub)).sum := by
  rw [currentAllocated, findActiveByFollower, List.filter_filter]
  change ((db.copySubscriptions.filter (counted follower existingSub)).map
    CopySubscription.allocatedBalance).sum = _
  induction db.copySubscriptions with
  | nil => rfl
  | cons row rows ih =>
    rw [List.map_cons, List.sum_cons, ← ih, allocation, List.filter_cons]
    split
    · rw [List.map_cons, List.sum_cons]
    · rw [zero_add]

theorem activeAllocation_eq (db : CopyTradingDb) (follower : Uuid) :
    activeAllocation db follower = currentAllocated db follower none := by
  simp [activeAllocation, currentAllocated]

theorem allocation_nonneg (h : 0 ≤ row.allocatedBalance) (follower : Uuid)
    (existingSub : Option CopySubscription) : 0 ≤ allocation follower existingSub row := by
  rw [allocation]
  split
  · exact h
  · exact le_rfl

theorem currentAllocated_create {new : CopySubscription} (h : db.createSubscription new = some db')
    (follower : Uuid) (existingSub : Option CopySubscription) :
    currentAllocated db' follower existingSub =
      currentAllocated db follower existingSub + allocation follower existingSub new := by
  unfold CopyTradingDb.createSubscription at h
  split at h <;> cases h
  rw [currentAllocated_eq_sum, currentAllocated_eq_sum, List.map_append, List.sum_append,
    List.map_singleton, List.sum_singleton]

theorem currentAllocated_setSubscription {f : CopySubscription → CopySubscription}
    (hids : KeyUnique CopySubscription.id db.copySubscriptions)
    (hrow : row ∈ db.copySubscriptions) (follower : Uuid)
    (existingSub : Option CopySubscription) :
    currentAllocated (db.setSubscription row.id f) follower existingSub =
      currentAllocated db follower existingSub - allocation follower existingSub row +
        allocation follower existingSub (f row) := by
  rw [currentAllocated_eq_sum, currentAllocated_eq_sum]
  exact sum_map_update hids hrow f (allocation follower existingSub)

/-- A subscription that is passed over counts as one that has been terminated. -/
theorem currentAllocated_some (db : CopyTradingDb) (follower : Uuid) (sub : CopySubscription) :
    currentAllocated db follower (some sub) =
      currentAllocated (db.updateStatus sub.id .terminated) follower none := by
  rw [currentAllocated_eq_sum, currentAllocated_eq_sum, CopyTradingDb.updateStatus,
    CopyTradingDb.setSubscription, List.map_map]
  refine congrArg List.sum (List.map_congr_left fun row _ => ?_)
  rw [Function.comp_apply]
  by_cases hid : row.id = sub.id
  · simp [allocation, counted, hid]
  · simp [allocation, counted, hid]

/-! ### The condition -/

/-- The call has read the active subscriptions of its follower and has not returned. -/
def Allocating : Creating → Prop
  | .writing _ => True
  | .incrementing _ => True
  | _ => False

/-- A balance from the cache is still there, and a row is written while no other call of the
follower has read the active subscriptions and not returned. -/
structure AllocatesAlone (c : ServiceConfig) (e : Event Action) : Prop where
  cached : ∀ request existingSub available,
    c.procs e.proc = .creating request (.balancing existingSub .reading) → e.action = .statement →
      cachedBalance c.shared request.followerUserId = some available →
        available ≤ c.shared.balances request.followerUserId
  alone : ∀ request existingSub, c.procs e.proc = .creating request (.writing existingSub) →
    e.action ≠ .fail → ∀ q, q ≠ e.proc → ∀ other progress, c.procs q = .creating other progress →
      other.followerUserId = request.followerUserId → ¬Allocating progress

/-! ### Moments of a call -/

/-- The step starts while the call is in progress. -/
def During (u : ServiceTransition) (p : ℕ) (request : CreateSubscriptionRequest) : Prop :=
  inProgress (u.before.procs p) ∧ ∃ progress, u.before.procs p = .creating request progress

/-- At some moment of the call the follower had as much. -/
def Backed (ts : List ServiceTransition) (p : ℕ) (request : CreateSubscriptionRequest) (n : ℤ) :
    Prop :=
  ∃ u ∈ ts, During u p request ∧ n ≤ u.before.shared.balances request.followerUserId

theorem Backed.le (h : Backed ts p request n) (hle : m ≤ n) : Backed ts p request m := by
  obtain ⟨u, hu, hduring, hn⟩ := h
  exact ⟨u, hu, hduring, hle.trans hn⟩

theorem Backed.later (h : Backed ts p request n) : Backed (ts ++ [t]) p request n := by
  obtain ⟨u, hu, hduring, hn⟩ := h
  exact ⟨u, List.mem_append_left _ hu, hduring, hn⟩

/-- What the balance of this moment covers. -/
theorem backed_now (hproc : c.procs p = .creating request creating)
    (hprogress : inProgress (.creating request creating))
    (h : n ≤ c.shared.balances request.followerUserId) :
    Backed (ts ++ [⟨c, e, d⟩]) p request n :=
  ⟨⟨c, e, d⟩, List.mem_append_right _ List.mem_cons_self, ⟨hproc ▸ hprogress, creating, hproc⟩, h⟩

/-- What a call goes on with was covered at some moment of it. -/
def CreateBacked (ts : List ServiceTransition) (db : CopyTradingDb) (p : ℕ)
    (request : CreateSubscriptionRequest) : Creating → Prop
  | .balancing _ (.caching available) => Backed ts p request available
  | .allocating _ availableUsdt => Backed ts p request availableUsdt
  | .writing existingSub => Backed ts p request
    (currentAllocated db request.followerUserId existingSub + request.allocatedBalance.units)
  | .incrementing _ => Backed ts p request (activeAllocation db request.followerUserId)
  | _ => True

theorem CreateBacked.later (h : CreateBacked ts db p request creating)
    (hle : Allocating creating → ∀ existingSub, currentAllocated db' request.followerUserId
      existingSub ≤ currentAllocated db request.followerUserId existingSub) :
    CreateBacked (ts ++ [t]) db' p request creating := by
  cases creating with
  | balancing existingSub progress =>
    cases progress with
    | caching available => exact Backed.later h
    | _ => trivial
  | allocating existingSub availableUsdt => exact Backed.later h
  | writing existingSub =>
    have hcurrent := hle trivial existingSub
    exact (Backed.later h).le (by omega)
  | incrementing subscription =>
    have hcurrent := hle trivial none
    rw [← activeAllocation_eq, ← activeAllocation_eq] at hcurrent
    exact (Backed.later h).le hcurrent
  | _ => trivial

/-! ### Steps -/

/-- A step that writes no subscription of the follower does not add to its allocations. -/
theorem currentAllocated_step (hids : KeyUnique CopySubscription.id s.db.copySubscriptions)
    (hnonneg : ∀ row ∈ s.db.copySubscriptions, 0 ≤ row.allocatedBalance) (hknows : Knows s l)
    (h : ServiceStep s l action s' l')
    (hother : ∀ request existingSub, l = .creating request (.writing existingSub) →
      action ≠ .fail → request.followerUserId ≠ follower) (existingSub : Option CopySubscription) :
    currentAllocated s'.db follower existingSub ≤ currentAllocated s.db follower existingSub := by
  cases h with
  | quiet hmasters hdb => rw [hdb]
  | registered => exact le_rfl
  | @inserted request newId _ db hcreate hnot =>
    have hne := hother request none rfl hnot
    have hzero : allocation follower existingSub (newSubscription request newId) = 0 := by
      simp [allocation, counted, newSubscription, hne]
    exact (currentAllocated_create hcreate follower existingSub).trans_le (by omega)
  | @reactivated request sub row _ hnot =>
    have hne := hother request (some sub) rfl hnot
    obtain ⟨⟨old, hold, hid, hfollows⟩, hrequest⟩ := hknows.2 sub rfl
    have hfollower : old.followerUserId = request.followerUserId :=
      congrArg Prod.fst (hfollows.trans hrequest)
    have hset := currentAllocated_setSubscription
      (f := fun row => { row with
        status := .active
        allocatedBalance := request.allocatedBalance.units
        maxSlippagePercent := maxSlippage request }) hids hold follower existingSub
    simp only [allocation, counted, hfollower, hne, false_and, decide_false, Bool.and_false,
      Bool.false_eq_true, if_false, sub_zero, add_zero, hid] at hset
    exact hset.le
  | @terminated request sub _ cancelling hnot hnext =>
    obtain ⟨old, hold, hid, hfollows⟩ := hknows
    have hset := currentAllocated_setSubscription
      (f := fun row => { row with status := .terminated }) hids hold follower existingSub
    have hbefore := allocation_nonneg (hnonneg old hold) follower existingSub
    have hafter : allocation follower existingSub { old with status := .terminated } = 0 := by
      simp [allocation, counted]
    rw [hafter, hid] at hset
    exact hset.trans_le (by omega)
  | counted => exact le_rfl

/-- The write of a call brings what it has counted with. -/
theorem activeAllocation_write {r : CopyTradingDb × CopySubscription}
    (hids : KeyUnique CopySubscription.id s.db.copySubscriptions)
    (hknows : KnowsExisting s request existingSub)
    (h : writeSubscription s request existingSub action = some r) :
    activeAllocation r.1 request.followerUserId =
      currentAllocated s.db request.followerUserId existingSub +
        request.allocatedBalance.units := by
  rw [activeAllocation_eq]
  rcases writeSubscription_cases h with ⟨rfl, newId, hcreate, -⟩ | ⟨sub, rfl, hdb⟩
  · rw [currentAllocated_create hcreate]
    simp [allocation, counted, newSubscription]
  · obtain ⟨⟨old, hold, hid, hfollows⟩, hrequest⟩ := hknows sub rfl
    have hfollower : old.followerUserId = request.followerUserId :=
      congrArg Prod.fst (hfollows.trans hrequest)
    have hset := currentAllocated_setSubscription
      (f := fun row => { row with
        status := .active
        allocatedBalance := request.allocatedBalance.units
        maxSlippagePercent := maxSlippage request }) hids hold request.followerUserId none
    have hrest := currentAllocated_setSubscription
      (f := fun row => { row with status := .terminated }) hids hold request.followerUserId none
    have hadds : allocation request.followerUserId none { old with
        status := .active
        allocatedBalance := request.allocatedBalance.units
        maxSlippagePercent := maxSlippage request } = request.allocatedBalance.units := by
      simp [allocation, counted, hfollower]
    have hnothing : allocation request.followerUserId none { old with status := .terminated } =
        0 := by
      simp [allocation, counted]
    rw [hadds, hid] at hset
    rw [hnothing, hid] at hrest
    rw [hdb, currentAllocated_some]
    change currentAllocated (s.db.setSubscription sub.id _) _ none =
      currentAllocated (s.db.setSubscription sub.id _) _ none + _
    rw [hset, hrest]
    omega

/-- What a call goes on with after a step of its own is covered. -/
theorem createBacked_step (hids : KeyUnique CopySubscription.id c.shared.db.copySubscriptions)
    (hknows : CreateKnows c.shared request creating) (hguard : AllocatesAlone c e)
    (hproc : c.procs e.proc = .creating request creating)
    (hbacked : CreateBacked ts c.shared.db e.proc request creating)
    (hstep : CreateStep c.shared request creating e.action s' creating') :
    CreateBacked (ts ++ [⟨c, e, d⟩]) s'.db e.proc request creating' := by
  generalize haction : e.action = action at hstep
  cases hstep with
  | threw => trivial
  | found => trivial
  | checked => trivial
  | balanced hbalance =>
    cases hbalance with
    | missed => trivial
    | fetched => exact backed_now hproc rfl le_rfl
  | answered hbalance =>
    cases hbalance with
    | cached hcached =>
      exact backed_now hproc rfl (Int.ofNat_le.mpr (hguard.cached _ _ _ hproc haction hcached))
    | unknown => exact backed_now hproc rfl (Int.natCast_nonneg _)
    | stored => exact Backed.later hbacked
    | unstored => exact Backed.later hbacked
  | allocated hle => exact (Backed.later hbacked).le hle
  | wrote _ hwrite =>
    split
    · exact (Backed.later hbacked).le (activeAllocation_write hids hknows.2 hwrite).le
    · trivial
  | incremented hafter => rcases hafter with rfl | rfl <;> trivial

theorem allocations_nonneg (h : ServiceStep s l action s' l')
    (hnonneg : ∀ row ∈ s.db.copySubscriptions, 0 ≤ row.allocatedBalance) :
    ∀ row ∈ s'.db.copySubscriptions, 0 ≤ row.allocatedBalance := by
  have hset {id : Uuid} {f : CopySubscription → CopySubscription} {row : CopySubscription}
      (hrow : row ∈ (s.db.setSubscription id f).copySubscriptions)
      (hf : ∀ row, 0 ≤ row.allocatedBalance → 0 ≤ (f row).allocatedBalance) :
      0 ≤ row.allocatedBalance := by
    obtain ⟨old, hold, rfl⟩ := List.mem_map.mp hrow
    split
    · exact hf old (hnonneg old hold)
    · exact hnonneg old hold
  intro row hrow
  cases h with
  | quiet hmasters hdb =>
    rw [hdb] at hrow
    exact hnonneg row hrow
  | registered => exact hnonneg row hrow
  | inserted hcreate =>
    unfold CopyTradingDb.createSubscription at hcreate
    split at hcreate <;> cases hcreate
    rcases List.mem_append.mp hrow with hold | hnew
    · exact hnonneg row hold
    · obtain rfl := List.mem_singleton.mp hnew
      exact Int.natCast_nonneg _
  | reactivated => exact hset hrow fun _ _ => Int.natCast_nonneg _
  | terminated => exact hset hrow fun _ h => h
  | counted => exact hnonneg row hrow

/-! ### Runs -/

/-- What is active when a call returns was covered at some moment of the call. -/
def Covers (ts : List ServiceTransition) : Prop :=
  ∀ t ∈ ts, ∀ request row, t.after.procs t.event.proc = .creating request (.returned row) →
    Backed ts t.event.proc request (activeAllocation t.after.shared.db request.followerUserId)

structure Admitted (ts : List ServiceTransition) (c : ServiceConfig) : Prop where
  consistent : Consistent c
  nonneg : ∀ row ∈ c.shared.db.copySubscriptions, 0 ≤ row.allocatedBalance
  calls : ∀ p request progress, c.procs p = .creating request progress →
    CreateBacked ts c.shared.db p request progress
  covers : Covers ts

theorem calls_next (hc : Admitted ts c) (hguard : AllocatesAlone c e)
    (hstep : step c.shared (c.procs e.proc) e.action = some (s', l')) (p : ℕ)
    (request : CreateSubscriptionRequest) (progress : Creating)
    (hproc : Function.update c.procs e.proc l' p = .creating request progress) :
    CreateBacked (ts ++ [⟨c, e, d⟩]) s'.db p request progress := by
  have hknows := hc.consistent.processes e.proc
  by_cases hp : p = e.proc
  · subst hp
    rw [Function.update_self] at hproc
    subst hproc
    generalize hbefore : c.procs e.proc = before at hstep hknows
    cases before with
    | creating request' creating =>
      obtain ⟨⟨s₁, creating'⟩, hcreate, hr⟩ := Option.map_eq_some_iff.mp hstep
      cases hr
      exact createBacked_step hc.consistent.ids hknows hguard hbefore
        (hc.calls _ _ _ hbefore) (createStep_cases hcreate)
    | idle =>
      cases hstart : e.action with
      | createSubscription =>
        rw [hstart] at hstep
        cases hstep
        trivial
      | registerMaster =>
        rw [hstart] at hstep
        obtain ⟨s₁, -, hr⟩ := Option.map_eq_some_iff.mp hstep
        cases hr
      | _ =>
        rw [hstart] at hstep
        cases hstep
    | cancelling =>
      obtain ⟨r, -, hr⟩ := Option.map_eq_some_iff.mp hstep
      cases hr
    | balancing =>
      obtain ⟨⟨s₁, next⟩, -, hr⟩ := Option.map_eq_some_iff.mp hstep
      cases next <;> cases hr
    | answered => cases hstep
  · rw [Function.update_of_ne hp] at hproc
    refine (hc.calls p request progress hproc).later fun hallocating => ?_
    -- The follower has a call between its read and its return, so no other call writes for it.
    refine currentAllocated_step hc.consistent.ids hc.nonneg hknows (step_cases hstep) ?_
    intro other existingSub hwriting hnot hsame
    exact hguard.alone other existingSub hwriting hnot p hp request progress hproc hsame.symm
      hallocating

/-- A call returns with the subscriptions that were there when its counter was incremented. -/
theorem returned_cases {request : CreateSubscriptionRequest}
    (h : step s l action = some (s', .creating request (.returned row))) :
    ∃ subscription, l = .creating request (.incrementing subscription) ∧ s'.db = s.db := by
  cases l with
  | idle =>
    cases action with
    | registerMaster =>
      obtain ⟨s₁, -, hr⟩ := Option.map_eq_some_iff.mp h
      cases hr
    | _ => cases h
  | creating request' creating =>
    obtain ⟨⟨s₁, creating'⟩, hstep, hr⟩ := Option.map_eq_some_iff.mp h
    cases hr
    generalize hreturned : Creating.returned row = creating' at hstep
    cases createStep_cases hstep with
    | incremented => exact ⟨_, rfl, rfl⟩
    | wrote => split at hreturned <;> cases hreturned
    | _ => cases hreturned
  | cancelling =>
    obtain ⟨r, -, hr⟩ := Option.map_eq_some_iff.mp h
    cases hr
  | balancing =>
    obtain ⟨⟨s₁, next⟩, -, hr⟩ := Option.map_eq_some_iff.mp h
    cases next <;> cases hr
  | answered => cases h

theorem admitted_next (hc : Admitted ts c) (hguard : AllocatesAlone c e)
    (hnext : copyTradingSystem.next c e = some d) : Admitted (ts ++ [⟨c, e, d⟩]) d := by
  have hconsistent := consistent_next hc.consistent hnext
  obtain ⟨s', l', hstep, rfl⟩ := System.next_eq_some.mp hnext
  have hstep : step c.shared (c.procs e.proc) e.action = some (s', l') := hstep
  refine ⟨hconsistent, allocations_nonneg (step_cases hstep) hc.nonneg,
    calls_next hc hguard hstep, fun t ht request row hreturned => ?_⟩
  rcases List.mem_append.mp ht with hold | hnew
  · exact (hc.covers t hold request row hreturned).later
  · obtain rfl := List.mem_singleton.mp hnew
    simp only [Function.update_self] at hreturned
    subst hreturned
    obtain ⟨subscription, hproc, hdb⟩ := returned_cases hstep
    have hbacked : Backed ts e.proc request
      (activeAllocation c.shared.db request.followerUserId) := hc.calls _ _ _ hproc
    rw [← hdb] at hbacked
    exact hbacked.later

theorem admitted_initial : Admitted [] initial where
  consistent := consistent_initial
  nonneg _ hrow := absurd hrow List.not_mem_nil
  calls _ _ _ hproc := nomatch hproc
  covers _ ht := absurd ht List.not_mem_nil

/-- In a run under the condition, what is active when a call returns was covered by the
balance at some moment of the call. -/
theorem active_allocations_covered (es : List (Event Action)) (d : ServiceConfig)
    (h : copyTradingSystem.Run AllocatesAlone initial es d) :
    Covers (copyTradingSystem.transitions initial es) := by
  have hadmitted : Admitted (copyTradingSystem.transitions initial es) d :=
    h.trace_invariant admitted_initial fun _ _ _ _ hc hguard hnext =>
      admitted_next hc hguard hnext
  exact hadmitted.covers

/-! ### Runs of one follower -/

/-- The call of the process is one of the follower that has read its subscriptions. -/
def allocatingFor (follower : Uuid) : Process → Bool
  | .creating request (.writing _) => request.followerUserId = follower
  | .creating request (.incrementing _) => request.followerUserId = follower
  | _ => false

/-- The condition among the first `n` processes, checked on one transition. -/
def allocatesAlone (n : ℕ) (t : ServiceTransition) : Bool :=
  let s := t.before.shared
  match t.before.procs t.event.proc with
  | .creating request (.balancing _ .reading) =>
    t.event.action ≠ .statement || (cachedBalance s request.followerUserId).all fun available =>
      available ≤ s.balances request.followerUserId
  | .creating request (.writing _) =>
    t.event.action = .fail || (List.range n).all fun q =>
      q = t.event.proc || !allocatingFor request.followerUserId (t.before.procs q)
  | _ => true

theorem allocatesAlone_spec {k : ℕ} (hidle : ∀ q, k ≤ q → t.before.procs q = .idle)
    (h : allocatesAlone k t = true) : AllocatesAlone t.before t.event := by
  unfold allocatesAlone at h
  constructor
  · intro request existingSub available hproc haction hcached
    simp only [hproc, haction, hcached, ne_eq, not_true_eq_false, decide_false, Bool.false_or,
      Option.all_some] at h
    exact of_decide_eq_true h
  · intro request existingSub hproc hnot q hq other progress hother hsame hallocating
    simp only [hproc, hnot, decide_false, Bool.false_or, List.all_eq_true] at h
    have hlt : q < k := by
      by_contra hle
      rw [hidle q (Nat.not_lt.mp hle)] at hother
      cases hother
    have hfor : allocatingFor request.followerUserId (t.before.procs q) = true := by
      rw [hother]
      cases progress with
      | writing => exact decide_eq_true hsame
      | incrementing => exact decide_eq_true hsame
      | _ => exact hallocating.elim
    have hcheck := h q (List.mem_range.mpr hlt)
    simp [hq, hfor] at hcheck

/-- There are two masters, and a user has a balance. -/
def funded : List (Event Action) :=
  perform 9 [.registerMaster "m" "first" 10, .registerMaster "n" "second" 10,
    .setBalance "u" 100]

def subscribe (masterId : Uuid) (allocatedBalance : DecimalText) : Action :=
  .createSubscription ⟨"u", masterId, allocatedBalance, none⟩

/-- The second call finds the balance in the cache. -/
def allocatedInTurn : List (Event Action) :=
  funded ++
    perform 0 (subscribe "m" ⟨"0.00000060", 60⟩ ::
      List.replicate 6 .statement ++ [.insert "s", .statement]) ++
    perform 1 (subscribe "n" ⟨"0.00000040", 40⟩ ::
      List.replicate 4 .statement ++ [.insert "t", .statement])

theorem allocatedInTurn_executes :
    (copyTradingSystem.exec initial allocatedInTurn).map
      (fun c => (activeAllocation c.shared.db "u", c.shared.balances "u")) = some (100, 100) ∧
      (copyTradingSystem.transitions initial allocatedInTurn).all (allocatesAlone 10) = true := by
  decide +kernel

theorem active_allocations_covered_allocatedInTurn : ∃ d,
    copyTradingSystem.exec initial allocatedInTurn = some d ∧
      activeAllocation d.shared.db "u" = 100 ∧
        Covers (copyTradingSystem.transitions initial allocatedInTurn) := by
  obtain ⟨d, hexec, hd⟩ := Option.map_eq_some_iff.mp allocatedInTurn_executes.1
  refine ⟨d, hexec, congrArg Prod.fst hd, active_allocations_covered allocatedInTurn d ?_⟩
  refine .of_transitions hexec fun t ht => allocatesAlone_spec (fun q hq => ?_)
    (List.all_eq_true.mp allocatedInTurn_executes.2 t ht)
  exact System.transitions_procs_of_le hexec (by decide) hq ht

/-- Both calls read the subscriptions before either of them writes its own. -/
def allocatedTogether : List (Event Action) :=
  funded ++
    perform 0 (subscribe "m" ⟨"0.00000100", 100⟩ :: List.replicate 6 .statement) ++
    perform 1 (subscribe "n" ⟨"0.00000100", 100⟩ :: List.replicate 4 .statement) ++
    perform 0 [.insert "s", .statement] ++ perform 1 [.insert "t", .statement]

/-- The call of the user returns while more than `n` is active. -/
def returnsAbove (n : ℤ) (t : ServiceTransition) : Bool :=
  match t.after.procs t.event.proc with
  | .creating request (.returned _) =>
    request.followerUserId = "u" && n < activeAllocation t.after.shared.db "u"
  | _ => false

theorem returnsAbove_spec (h : returnsAbove n t = true) : ∃ request row,
    t.after.procs t.event.proc = .creating request (.returned row) ∧
      request.followerUserId = "u" ∧ n < activeAllocation t.after.shared.db "u" := by
  unfold returnsAbove at h
  split at h
  · next request row hproc =>
    obtain ⟨hfollower, habove⟩ := Bool.and_eq_true_iff.mp h
    exact ⟨request, row, hproc, of_decide_eq_true hfollower, of_decide_eq_true habove⟩
  · cases h

theorem allocatedTogether_executes :
    (copyTradingSystem.exec initial allocatedTogether).isSome = true ∧
      (copyTradingSystem.transitions initial allocatedTogether).any (returnsAbove 100) = true ∧
      (copyTradingSystem.transitions initial allocatedTogether).all
        (fun u => u.before.shared.balances "u" ≤ 100) = true := by
  decide +kernel

/-- The user has 100 at all times, and 200 is active when the second call returns. -/
theorem active_allocations_uncovered_allocatedTogether :
    ¬∀ es d, copyTradingSystem.exec initial es = some d →
      Covers (copyTradingSystem.transitions initial es) := by
  intro hall
  obtain ⟨hsome, hany, hbalance⟩ := allocatedTogether_executes
  obtain ⟨d, hexec⟩ := Option.isSome_iff_exists.mp hsome
  obtain ⟨t, ht, habove⟩ := List.any_eq_true.mp hany
  obtain ⟨request, row, hreturned, hfollower, hactive⟩ := returnsAbove_spec habove
  obtain ⟨u, hu, -, hcovered⟩ := hall allocatedTogether d hexec t ht request row hreturned
  have hle : u.before.shared.balances "u" ≤ 100 :=
    of_decide_eq_true (List.all_eq_true.mp hbalance u hu)
  rw [hfollower] at hcovered
  omega

end EtherTrade.CopyAllocationLaws
