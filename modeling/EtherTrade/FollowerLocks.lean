import EtherTrade.MasterTradeReplicationSteps
import EtherTrade.OrderRetryLaws

/-!
# Workers under their locks

Every lock is set under a token of its own. While the time of a worker's lock has not passed,
the entry that the worker has set is in place, and no other worker of the follower is in time
with its lock.
-/

namespace EtherTrade.FollowerLocks

open AccountsSchema CopyTradingSchema InterleavedProcesses DistributedLockService
open MasterTradeReplication MasterTradeReplicationSteps CopyTradingConstants

variable {s s' : CopyStore} {task task' : ReplicationSideTask} {subscriber other : CopySubscription}
  {copying copying' : Copying} {progress progress' : Replicating} {workerAction : WorkerAction}
  {l l' : Process} {action : Action} {lockToken : Uuid} {c d : CopyConfig} {e : Event Action}
  {p q i j time : ℕ}

variable {t : CopyTransition} {ts us : List CopyTransition}

/-! ### Tokens and critical sections -/

/-- The token that a step generates, and the time of the step. -/
def issued (t : CopyTransition) : Option (Uuid × ℕ) :=
  match t.event.action with
  | .worker _ (.acquire lockToken) => some (lockToken, t.before.shared.now)
  | .worker _ (.acquireUnacknowledged lockToken) => some (lockToken, t.before.shared.now)
  | _ => none

/-- The token of the worker that acts, if it has something left to do under its lock. -/
def critical (t : CopyTransition) : Option Uuid :=
  match t.event.action with
  | .worker i _ =>
    match workerOf (t.before.procs t.event.proc) i with
    | some (_, worker) =>
      match worker.progress with
      | .holding _ .releasing => none
      | .holding lockToken _ => some lockToken
      | _ => none
    | none => none
  | _ => none

/-- Tokens are generated once, and no worker acts under a lock whose time has passed. -/
structure LocksKept (ts : List CopyTransition) : Prop where
  fresh : ((ts.filterMap issued).map Prod.fst).Nodup
  inTime : ∀ t ∈ ts, ∀ lockToken time, critical t = some lockToken →
    (lockToken, time) ∈ ts.filterMap issued → t.before.shared.now < time + defaultLockTtlMs

theorem mem_issued_append : (lockToken, time) ∈ (ts ++ [t]).filterMap issued ↔
    (lockToken, time) ∈ ts.filterMap issued ∨ issued t = some (lockToken, time) := by
  simp [List.filterMap_append, List.mem_filterMap]

theorem LocksKept.earlier (h : LocksKept (ts ++ us)) : LocksKept ts := by
  constructor
  · have hfresh := h.fresh
    rw [List.filterMap_append, List.map_append] at hfresh
    exact hfresh.of_append_left
  · intro t ht lockToken time hcritical hissued
    refine h.inTime t (List.mem_append_left _ ht) lockToken time hcritical ?_
    rw [List.filterMap_append]
    exact List.mem_append_left _ hissued

/-- A token that a step generates was not issued before. -/
theorem LocksKept.not_issued (h : LocksKept (ts ++ [t])) (ht : issued t = some (lockToken, time)) :
    lockToken ∉ (ts.filterMap issued).map Prod.fst := by
  have hfresh := h.fresh
  rw [List.filterMap_append, List.map_append, List.nodup_append] at hfresh
  intro hmem
  refine hfresh.2.2 lockToken hmem lockToken ?_ rfl
  simp [ht]

/-- The time of the lock that was set under the token has not passed. -/
def InTime (ts : List CopyTransition) (s : CopyStore) (lockToken : Uuid) : Prop :=
  ∃ time, (lockToken, time) ∈ ts.filterMap issued ∧ s.now < time + defaultLockTtlMs

/-! ### What a step does to the locks -/

theorem now_le_step (hstep : step s l action = some (s', l')) : s.now ≤ s'.now := by
  have horders {event : Event OrdersTransactions.Action} {orders : OrdersTransactions.OrdersConfig}
      (hnext : OrdersTransactions.ordersSystem.next s.orders event = some orders) :
      s.orders.shared.store.now ≤ orders.shared.store.now := by
    obtain ⟨shared, proc, hstep, rfl⟩ := System.next_eq_some.mp hnext
    exact (OrderRetryLaws.step_effect hstep).now_le
  have heffect := step_cases hstep
  cases heffect with
  | world _ _ hkept => rw [CopyStore.now, CopyStore.now, hkept]
  | orders hnext => exact horders hnext
  | message heffect => cases heffect <;> exact le_rfl
  | @worker _ _ _ _ _ _ worker _ _ _ hpoint hworker hreplicate =>
    have heffect := replicateStep_cases hreplicate
    generalize worker.progress = progress at heffect
    cases heffect with
    | copied heffect =>
      cases heffect with
      | called hidle hnext => exact horders hnext
      | _ => exact le_rfl
    | _ => exact le_rfl
  | _ => exact le_rfl

theorem now_le_next (hnext : replicationSystem.next c e = some d) :
    c.shared.now ≤ d.shared.now := by
  obtain ⟨s', l', hstep, rfl⟩ := System.next_eq_some.mp hnext
  exact now_le_step hstep

/-- What one step does to the locks. -/
inductive LocksEffect (s : CopyStore) (l : Process) (action : Action) (s' : CopyStore)
    (l' : Process) : Prop
  | kept (hlocks : s'.locks = s.locks)
  | acquired {i : ℕ} {workerAction : WorkerAction} {follower lockToken : Uuid}
      (haction : action = .worker i workerAction)
      (hkind : workerAction = .acquire lockToken ∨ workerAction = .acquireUnacknowledged lockToken)
      (hacquire : acquireLock s.locks s.now (followerLock follower) lockToken defaultLockTtlMs =
        some s'.locks)
  | released {i : ℕ} {task : ReplicationSideTask} {worker : Worker} {lockToken : Uuid}
      (hworker : workerOf l i = some (task, worker))
      (hprogress : worker.progress = .holding lockToken .releasing)
      (hsettled : workerOf l' i = some (task, { worker with progress := .settled }))
      (hlocks : s'.locks =
        releaseLock s.locks s.now (followerLock worker.subscriber.followerUserId) lockToken)

theorem locks_message {h h' : Handling} (heffect : MessageEffect s h s' h') :
    s'.locks = s.locks := by
  cases heffect <;> rfl

theorem locks_copy (heffect : CopyEffect s task subscriber copying workerAction s' copying') :
    s'.locks = s.locks := by
  cases heffect <;> rfl

theorem locks_worker {masterBalance : DecimalNumbers.BigNumber}
    (h : replicateStep s task masterBalance subscriber progress workerAction =
      some (s', progress')) :
    s'.locks = s.locks ∨
      (∃ lockToken, (workerAction = .acquire lockToken ∨
          workerAction = .acquireUnacknowledged lockToken) ∧
        acquireLock s.locks s.now (followerLock subscriber.followerUserId) lockToken
          defaultLockTtlMs = some s'.locks) ∨
      ∃ lockToken, progress = .holding lockToken .releasing ∧ progress' = .settled ∧
        s'.locks = releaseLock s.locks s.now (followerLock subscriber.followerUserId)
          lockToken := by
  cases progress with
  | acquiring =>
    cases workerAction with
    | acquire lockToken =>
      simp only [replicateStep] at h
      split at h
      · cases h
        exact Or.inl rfl
      · next locks hacquire =>
        cases h
        exact Or.inr (Or.inl ⟨lockToken, Or.inl rfl, hacquire⟩)
    | acquireUnacknowledged lockToken =>
      obtain ⟨locks, hacquire, hr⟩ := Option.map_eq_some_iff.mp h
      cases hr
      exact Or.inr (Or.inl ⟨lockToken, Or.inr rfl, hacquire⟩)
    | fail message =>
      cases h
      exact Or.inl rfl
    | _ => cases h
  | holding lockToken copying =>
    have hcopy (h : (copyStep s task masterBalance subscriber copying workerAction).map
        (fun r => (r.1, Replicating.holding lockToken r.2)) = some (s', progress')) :
        s'.locks = s.locks := by
      obtain ⟨⟨s₁, copying'⟩, hstep, hr⟩ := Option.map_eq_some_iff.mp h
      cases hr
      exact locks_copy (copyStep_cases hstep)
    cases copying with
    | releasing =>
      cases workerAction with
      | statement =>
        cases h
        exact Or.inr (Or.inr ⟨lockToken, rfl, rfl, rfl⟩)
      | fail message =>
        cases h
        exact Or.inl rfl
      | _ => exact Or.inl (hcopy h)
    | _ => exact Or.inl (hcopy h)
  | settled => cases h

theorem locks_step (hstep : step s l action = some (s', l')) : LocksEffect s l action s' l' := by
  cases l with
  | idle =>
    cases action with
    | createMaster row =>
      obtain ⟨masters, -, hr⟩ := Option.map_eq_some_iff.mp hstep
      cases hr
      exact .kept rfl
    | createSubscription row =>
      obtain ⟨db, -, hr⟩ := Option.map_eq_some_iff.mp hstep
      cases hr
      exact .kept rfl
    | orders event =>
      obtain ⟨orders, -, hr⟩ := Option.map_eq_some_iff.mp hstep
      cases hr
      exact .kept rfl
    | _ => cases hstep <;> exact .kept rfl
  | handling h =>
    have hhandle (hstep : (handleStep s h h.point action).map
        (fun r => (r.1, Process.handling r.2)) = some (s', l')) :
        LocksEffect s (.handling h) action s' l' := by
      obtain ⟨⟨s₁, h'⟩, hhandle, hr⟩ := Option.map_eq_some_iff.mp hstep
      cases hr
      rcases handleStep_cases hhandle with heffect | ⟨task, masterBalance, workers, batches, i,
        worker, workerAction, progress, hpoint, rfl, hworker, hreplicate, rfl⟩
      · exact .kept (locks_message heffect)
      · rcases locks_worker hreplicate with hlocks | ⟨lockToken, hkind, hacquire⟩ |
          ⟨lockToken, hprogress, rfl, hlocks⟩
        · exact .kept hlocks
        · exact .acquired rfl hkind hacquire
        · have hbefore : workerOf (.handling h) i = some (task, worker) := by
            simp only [workerOf, hpoint, hworker, Option.map_some]
          refine .released hbefore hprogress ?_ hlocks
          obtain ⟨hlt, -⟩ := List.getElem?_eq_some_iff.mp hworker
          simp only [workerOf, List.getElem?_set_self hlt, Option.map_some]
    cases action with
    | stop =>
      cases hstep
      exact .kept rfl
    | _ => exact hhandle hstep
  | _ => cases hstep

/-! ### Holders -/

/-- The worker of the process with a number holds a lock. -/
def Holds (c : CopyConfig) (p i : ℕ) (task : ReplicationSideTask) (subscriber : CopySubscription)
    (lockToken : Uuid) (copying : Copying) : Prop :=
  workerOf (c.procs p) i = some (task, ⟨subscriber, .holding lockToken copying⟩)

/-- A holder has been one, in the same place or one step before, or has just got its lock. -/
theorem holds_next (hnext : replicationSystem.next c e = some d)
    (h : Holds d p i task subscriber lockToken copying') :
    (Holds c p i task subscriber lockToken copying' ∧
      ∀ workerAction, e ≠ ⟨p, .worker i workerAction⟩) ∨
      (∃ copying workerAction masterBalance, e = ⟨p, .worker i workerAction⟩ ∧
        Holds c p i task subscriber lockToken copying ∧
          runningOn (c.procs p) = some (task, masterBalance) ∧
            copyStep c.shared task masterBalance subscriber copying workerAction =
              some (d.shared, copying')) ∨
      ∃ locks, e = ⟨p, .worker i (.acquire lockToken)⟩ ∧ copying' = .sizing ∧
        acquireLock c.shared.locks c.shared.now (followerLock subscriber.followerUserId) lockToken
          defaultLockTtlMs = some locks ∧ d.shared = setLocks c.shared locks := by
  obtain ⟨s', l', hstep, rfl⟩ := System.next_eq_some.mp hnext
  by_cases hp : p = e.proc
  · subst hp
    simp only [Holds, Function.update_self] at h
    rcases worker_step hstep h with ⟨hold, hother⟩ | hnew | ⟨⟨subscriber', progress⟩, workerAction,
      masterBalance, haction, hold, hrunning, hsub, hreplicate⟩
    · exact Or.inl ⟨hold, fun workerAction he => hother workerAction (congrArg Event.action he)⟩
    · cases hnew
    · obtain rfl : subscriber = subscriber' := hsub
      have he : e = ⟨e.proc, .worker i workerAction⟩ := by rw [← haction]
      have heffect := replicateStep_cases hreplicate
      cases heffect with
      | locked hacquire => exact Or.inr (Or.inr ⟨_, he, rfl, hacquire, rfl⟩)
      | copied =>
        exact Or.inr (Or.inl ⟨_, workerAction, masterBalance, he, hold, hrunning,
          (copyStep_of_holding hreplicate).2⟩)
  · simp only [Holds, Function.update_of_ne hp] at h
    exact Or.inl ⟨h, fun workerAction he => hp (congrArg Event.proc he).symm⟩

/-- What holds of holders: their tokens were issued, each to one of them, and their entries
are in place until their time has passed. -/
structure Locked (ts : List CopyTransition) (c : CopyConfig) : Prop where
  generated : ∀ p i task subscriber lockToken copying,
    Holds c p i task subscriber lockToken copying →
      lockToken ∈ (ts.filterMap issued).map Prod.fst
  once : ∀ p i task subscriber lockToken copying q j task' other copying',
    Holds c p i task subscriber lockToken copying → Holds c q j task' other lockToken copying' →
      p = q ∧ i = j
  placed : ∀ p i task subscriber lockToken copying time,
    Holds c p i task subscriber lockToken copying → (lockToken, time) ∈ ts.filterMap issued →
      c.shared.now < time + defaultLockTtlMs →
        c.shared.locks (followerLock subscriber.followerUserId) =
          some ⟨lockToken, time + defaultLockTtlMs⟩

/-- A token that was issued before and is in time after a step was in time before. -/
theorem InTime.before (hkept : LocksKept (ts ++ [t])) (hnow : s.now ≤ s'.now)
    (hissued : lockToken ∈ (ts.filterMap issued).map Prod.fst)
    (h : InTime (ts ++ [t]) s' lockToken) : InTime ts s lockToken := by
  obtain ⟨time, hmem, htime⟩ := h
  rcases mem_issued_append.mp hmem with hold | hnew
  · exact ⟨time, hold, hnow.trans_lt htime⟩
  · exact absurd hissued (hkept.not_issued hnew)

/-- A holder that acts under its lock is in time. -/
theorem Locked.inTime (hc : Locked ts c) (hkept : LocksKept (ts ++ [⟨c, e, d⟩]))
    (h : Holds c p i task subscriber lockToken copying) (he : e = ⟨p, .worker i workerAction⟩)
    (hcopying : copying ≠ .releasing) : InTime ts c.shared lockToken := by
  have hcritical : critical ⟨c, e, d⟩ = some lockToken := by
    have hworker : workerOf (c.procs p) i =
        some (task, ⟨subscriber, .holding lockToken copying⟩) := h
    simp only [critical, he, hworker]
  obtain ⟨⟨token, time⟩, hmem, rfl⟩ := List.mem_map.mp (hc.generated _ _ _ _ _ _ h)
  exact ⟨time, hmem, hkept.inTime ⟨c, e, d⟩ (List.mem_append_right _ List.mem_cons_self) token time
    hcritical (mem_issued_append.mpr (Or.inl hmem))⟩

/-- Two holders of one follower that are in time are one. -/
theorem Locked.exclusive (hc : Locked ts c) {lockToken' : Uuid}
    (h : Holds c p i task subscriber lockToken copying)
    (h' : Holds c q j task' other lockToken' copying')
    (hfollower : other.followerUserId = subscriber.followerUserId)
    (htime : InTime ts c.shared lockToken) (htime' : InTime ts c.shared lockToken') :
    p = q ∧ i = j := by
  obtain ⟨time, hissued, htime⟩ := htime
  obtain ⟨time', hissued', htime'⟩ := htime'
  have hentry := hc.placed _ _ _ _ _ _ _ h hissued htime
  have hentry' := hc.placed _ _ _ _ _ _ _ h' hissued' htime'
  rw [hfollower, hentry] at hentry'
  cases hentry'
  exact hc.once _ _ _ _ _ _ _ _ _ _ _ h h'

/-- The entry of a holder that stays one is left alone until its time has passed. -/
theorem entry_next (hc : Locked ts c) (hnext : replicationSystem.next c e = some d)
    (hbefore : Holds c p i task subscriber lockToken copying)
    (hafter : Holds d p i task subscriber lockToken copying')
    (hentry : c.shared.locks (followerLock subscriber.followerUserId) =
      some ⟨lockToken, time + defaultLockTtlMs⟩)
    (htime : c.shared.now < time + defaultLockTtlMs) :
    d.shared.locks (followerLock subscriber.followerUserId) =
      some ⟨lockToken, time + defaultLockTtlMs⟩ := by
  obtain ⟨s', l', hstep, rfl⟩ := System.next_eq_some.mp hnext
  dsimp only
  cases locks_step hstep with
  | kept hlocks => rwa [hlocks]
  | @acquired _ _ follower token haction hkind hacquire =>
    simp only [acquireLock] at hacquire
    split at hacquire
    · cases hacquire
    · next hfree =>
      rw [← Option.some.inj hacquire]
      by_cases hkey : followerLock subscriber.followerUserId = followerLock follower
      · rw [← hkey, unexpired, hentry] at hfree
        simp [Option.filter, htime] at hfree
      · rwa [Function.update_of_ne hkey]
  | @released k task' worker token hworker hprogress hsettled hlocks =>
    rw [hlocks, releaseLock]
    split
    · next hown =>
      by_cases hkey : followerLock subscriber.followerUserId =
          followerLock worker.subscriber.followerUserId
      · -- an owner that releases its lock is this holder, and has settled
        rw [← hkey, unexpired, hentry] at hown
        obtain rfl : lockToken = token := by simpa [Option.filter, htime] using hown
        have hholds : Holds c e.proc k task' worker.subscriber lockToken .releasing := by
          rw [Holds, hworker, ← hprogress]
        obtain ⟨rfl, rfl⟩ := hc.once _ _ _ _ _ _ _ _ _ _ _ hbefore hholds
        simp only [Holds, Function.update_self, hsettled] at hafter
        cases hafter
      · rwa [Function.update_of_ne hkey]
    · exact hentry

theorem holds_before (hnext : replicationSystem.next c e = some d)
    (h : Holds d p i task subscriber lockToken copying') :
    (∃ copying, Holds c p i task subscriber lockToken copying) ∨
      (e = ⟨p, .worker i (.acquire lockToken)⟩ ∧
        issued ⟨c, e, d⟩ = some (lockToken, c.shared.now) ∧
          d.shared.now = c.shared.now ∧ d.shared.locks (followerLock subscriber.followerUserId) =
            some ⟨lockToken, c.shared.now + defaultLockTtlMs⟩) := by
  rcases holds_next hnext h with ⟨hold, -⟩ | ⟨copying, workerAction, masterBalance, -, hold, -⟩ |
    ⟨locks, rfl, -, hacquire, hshared⟩
  · exact Or.inl ⟨_, hold⟩
  · exact Or.inl ⟨_, hold⟩
  · refine Or.inr ⟨rfl, rfl, by rw [hshared]; rfl, ?_⟩
    simp only [acquireLock] at hacquire
    split at hacquire
    · cases hacquire
    · rw [hshared, ← Option.some.inj hacquire]
      exact Function.update_self ..

theorem locked_next (hkept : LocksKept (ts ++ [⟨c, e, d⟩])) (hc : Locked ts c)
    (hnext : replicationSystem.next c e = some d) : Locked (ts ++ [⟨c, e, d⟩]) d := by
  have hnow := now_le_next hnext
  constructor
  · intro p i task subscriber lockToken copying h
    rcases holds_before hnext h with ⟨copying', hold⟩ | ⟨-, hissued, -⟩
    · obtain ⟨⟨token, time⟩, hmem, rfl⟩ := List.mem_map.mp (hc.generated _ _ _ _ _ _ hold)
      exact List.mem_map_of_mem (mem_issued_append.mpr (Or.inl hmem))
    · exact List.mem_map_of_mem (mem_issued_append.mpr (Or.inr hissued))
  · intro p i task subscriber lockToken copying q j task' other copying' h h'
    rcases holds_before hnext h with ⟨_, hold⟩ | ⟨he, hissued, -⟩
    · rcases holds_before hnext h' with ⟨_, hold'⟩ | ⟨-, hissued', -⟩
      · exact hc.once _ _ _ _ _ _ _ _ _ _ _ hold hold'
      · exact absurd (hc.generated _ _ _ _ _ _ hold) (hkept.not_issued hissued')
    · rcases holds_before hnext h' with ⟨_, hold'⟩ | ⟨he', -⟩
      · exact absurd (hc.generated _ _ _ _ _ _ hold') (hkept.not_issued hissued)
      · cases he.symm.trans he'
        exact ⟨rfl, rfl⟩
  · intro p i task subscriber lockToken copying time h hissued htime
    rcases holds_before hnext h with ⟨_, hold⟩ | ⟨-, hnew, hsame, hentry⟩
    · rcases mem_issued_append.mp hissued with hissued | hnew
      · have hbefore := hnow.trans_lt htime
        exact entry_next hc hnext hold h (hc.placed _ _ _ _ _ _ _ hold hissued hbefore) hbefore
      · exact absurd (hc.generated _ _ _ _ _ _ hold) (hkept.not_issued hnew)
    · rcases mem_issued_append.mp hissued with hold | hagain
      · exact absurd (List.mem_map_of_mem (f := Prod.fst) hold) (hkept.not_issued hnew)
      · cases hnew.symm.trans hagain
        exact hentry

theorem locked_initial : Locked [] initial where
  generated _ _ _ _ _ _ h := nomatch h
  once _ _ _ _ _ _ _ _ _ _ _ h := nomatch h
  placed _ _ _ _ _ _ _ h := nomatch h

end EtherTrade.FollowerLocks
