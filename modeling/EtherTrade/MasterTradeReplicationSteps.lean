import EtherTrade.MasterTradeReplication

/-!
# The steps of replication

What one step of a worker and of a message does to the store, what the batches of a message
hold, and what a step does to the workers of a process.
-/

namespace EtherTrade.MasterTradeReplicationSteps

open KeyedRows AccountsSchema CopyTradingSchema CopyRatioCalculator
open OrdersSchema hiding TradeExecutedEvent
open DecimalNumbers InterleavedProcesses DistributedLockService MasterTradeReplication
open CopyTradingConstants
open OrdersTransactions (OrdersConfig ordersSystem)
open TradeSettlement (KafkaBatchConsumerPayload)

variable {s s' : CopyStore} {db db' : CopyTradingDb} {task : ReplicationSideTask}
  {masterBalance : BigNumber} {subscriber : CopySubscription} {copying copying' : Copying}
  {progress progress' : Replicating} {workerAction : WorkerAction} {h h' : Handling}
  {l l' : Process} {action : Action}

/-! ### Batches -/

theorem flatten_slices {α : Type} (items : List α) (chunkSize n : ℕ)
    (h : items.length ≤ n * chunkSize) :
    ((List.range n).map fun i => (items.drop (i * chunkSize)).take chunkSize).flatten = items := by
  induction n generalizing items with
  | zero =>
    have hnil : items = [] := List.eq_nil_of_length_eq_zero (by omega)
    rw [hnil]
    rfl
  | succ n ih =>
    have hlength : (items.drop chunkSize).length ≤ n * chunkSize := by
      rw [List.length_drop]
      rw [Nat.succ_mul] at h
      omega
    have hrest := ih (items.drop chunkSize) hlength
    have hshift : ((List.range n).map fun i =>
        (items.drop ((i + 1) * chunkSize)).take chunkSize) = (List.range n).map fun i =>
          ((items.drop chunkSize).drop (i * chunkSize)).take chunkSize := by
      refine List.map_congr_left fun i _ => ?_
      rw [List.drop_drop, Nat.succ_mul, Nat.add_comm]
    rw [List.range_succ_eq_map, List.map_cons, List.map_map, List.flatten_cons]
    change (items.drop (0 * chunkSize)).take chunkSize ++ ((List.range n).map fun i =>
      (items.drop ((i + 1) * chunkSize)).take chunkSize).flatten = items
    rw [hshift, hrest, Nat.zero_mul, List.drop_zero, List.take_append_drop]

/-- The batches hold all items, in order. -/
theorem flatten_chunks {α : Type} (items : List α) {chunkSize : ℕ} (h : 0 < chunkSize) :
    (chunks items chunkSize).flatten = items := by
  refine flatten_slices items chunkSize _ ?_
  have hdiv := Nat.div_add_mod (items.length + chunkSize - 1) chunkSize
  have hmod := Nat.mod_lt (items.length + chunkSize - 1) h
  rw [Nat.mul_comm]
  omega

/-! ### Steps of a worker -/

/-- What one step of a worker that holds its lock does. -/
inductive CopyEffect (s : CopyStore) (task : ReplicationSideTask) (subscriber : CopySubscription) :
    Copying → WorkerAction → CopyStore → Copying → Prop
  | dust (quantity : NumberText) :
    CopyEffect s task subscriber .sizing .statement s (.skipping quantity)
  | sized (quantity : NumberText) :
    CopyEffect s task subscriber .sizing .statement s
      (.ordering (copyRequest task subscriber quantity))
  | called {request : CreateOrderRequest} {call : ℕ} {orders : OrdersConfig}
      (hidle : s.orders.procs call = .idle)
      (hnext : ordersSystem.next s.orders ⟨call, .createOrder request⟩ = some orders) :
    CopyEffect s task subscriber (.ordering request) (.call call)
      { s with orders, calls := Function.update s.calls call (some (subscriber.id, task.tradeId)) }
      (.awaiting request call)
  | replied {request : CreateOrderRequest} {call : ℕ} {item : OrderItem}
      (hresponse : response s call = some item) :
    CopyEffect s task subscriber (.awaiting request call) .reply s
      (.completing request item.orderId)
  | inserted {copying copying' : Copying} {workerAction : WorkerAction}
      {new : NewCopyOrderHistory} {newId : Uuid} {db : CopyTradingDb}
      (hrecord : pendingRecord task subscriber copying = some new)
      (hcreate : s.db.createHistory new newId = some db)
      (hnext : workerAction = .insert newId ∧ copying' = .releasing ∨
        workerAction = .insertUnacknowledged newId ∧ copying' = afterError "" copying) :
    CopyEffect s task subscriber copying workerAction (setDb s db) copying'
  | failed {copying : Copying} {message : String} :
    CopyEffect s task subscriber copying (.fail message) s (afterError message copying)

theorem copyStep_cases
    (h : copyStep s task masterBalance subscriber copying workerAction = some (s', copying')) :
    CopyEffect s task subscriber copying workerAction s' copying' := by
  have hinsert {newId : Uuid} {next : Copying}
      (hnext : workerAction = .insert newId ∧ next = .releasing ∨
        workerAction = .insertUnacknowledged newId ∧ next = afterError "" copying) (h : (do
        let db ← s.db.createHistory (← pendingRecord task subscriber copying) newId
        return (setDb s db, next)) = some (s', copying')) :
      CopyEffect s task subscriber copying workerAction s' copying' := by
    simp only [Option.bind_eq_bind, Option.bind_eq_some_iff, Option.pure_def, Option.some.injEq,
      Prod.mk.injEq] at h
    obtain ⟨new, hrecord, db, hcreate, rfl, rfl⟩ := h
    exact .inserted hrecord hcreate hnext
  cases workerAction with
  | statement =>
    cases copying with
    | sizing =>
      simp only [copyStep] at h
      split at h <;> cases h
      · exact .dust _
      · exact .sized _
    | _ => cases h
  | insert newId =>
    cases copying with
    | releasing => cases h
    | _ => exact hinsert (Or.inl ⟨rfl, rfl⟩) h
  | insertUnacknowledged newId =>
    cases copying with
    | releasing => cases h
    | _ => exact hinsert (Or.inr ⟨rfl, rfl⟩) h
  | call call =>
    cases copying with
    | ordering request =>
      simp only [copyStep] at h
      split at h
      · next hidle =>
        obtain ⟨orders, hnext, hr⟩ := Option.map_eq_some_iff.mp h
        cases hr
        exact .called hidle hnext
      · cases h
    | _ => cases h
  | reply =>
    cases copying with
    | awaiting request call =>
      obtain ⟨item, hresponse, hr⟩ := Option.map_eq_some_iff.mp h
      cases hr
      exact .replied hresponse
    | _ => cases h
  | fail message =>
    cases copying with
    | releasing => cases h
    | sizing =>
      simp only [copyStep] at h
      split at h <;> cases h
      exact .failed
    | _ =>
      cases h
      exact .failed
  | _ => cases copying <;> cases h

/-- What one step of a worker does. -/
inductive WorkerEffect (s : CopyStore) (task : ReplicationSideTask)
    (subscriber : CopySubscription) : Replicating → WorkerAction → CopyStore → Replicating → Prop
  | locked {lockToken : Uuid} {locks : LockEntries}
      (hacquire : acquireLock s.locks s.now (followerLock subscriber.followerUserId) lockToken
        defaultLockTtlMs = some locks) :
    WorkerEffect s task subscriber .acquiring (.acquire lockToken) (setLocks s locks)
      (.holding lockToken .sizing)
  | refused {workerAction : WorkerAction} (locks : LockEntries) :
    WorkerEffect s task subscriber .acquiring workerAction (setLocks s locks) .settled
  | released {lockToken : Uuid} {workerAction : WorkerAction} (locks : LockEntries) :
    WorkerEffect s task subscriber (.holding lockToken .releasing) workerAction (setLocks s locks)
      .settled
  | copied {lockToken : Uuid} {copying copying' : Copying} {workerAction : WorkerAction}
      {s' : CopyStore} (heffect : CopyEffect s task subscriber copying workerAction s' copying') :
    WorkerEffect s task subscriber (.holding lockToken copying) workerAction s'
      (.holding lockToken copying')

theorem replicateStep_cases
    (h : replicateStep s task masterBalance subscriber progress workerAction =
      some (s', progress')) :
    WorkerEffect s task subscriber progress workerAction s' progress' := by
  cases progress with
  | acquiring =>
    cases workerAction with
    | acquire lockToken =>
      simp only [replicateStep] at h
      split at h
      · cases h
        exact .refused s.locks
      · next locks hacquire =>
        cases h
        exact .locked hacquire
    | acquireUnacknowledged lockToken =>
      obtain ⟨locks, -, hr⟩ := Option.map_eq_some_iff.mp h
      cases hr
      exact .refused locks
    | fail message =>
      cases h
      exact .refused s.locks
    | _ => cases h
  | holding lockToken copying =>
    have hcopy (h : (copyStep s task masterBalance subscriber copying workerAction).map
        (fun r => (r.1, Replicating.holding lockToken r.2)) = some (s', progress')) :
        WorkerEffect s task subscriber (.holding lockToken copying) workerAction s' progress' := by
      obtain ⟨r, hstep, hr⟩ := Option.map_eq_some_iff.mp h
      cases hr
      exact .copied (copyStep_cases hstep)
    cases copying with
    | releasing =>
      cases workerAction with
      | statement =>
        cases h
        exact .released _
      | fail message =>
        cases h
        exact .released s.locks
      | _ => exact hcopy h
    | _ => exact hcopy h
  | settled => cases h

/-- A worker that goes on holding its lock copies. -/
theorem copyStep_of_holding {lockToken lockToken' : Uuid}
    (h : replicateStep s task masterBalance subscriber (.holding lockToken copying) workerAction =
      some (s', .holding lockToken' copying')) : lockToken' = lockToken ∧
        copyStep s task masterBalance subscriber copying workerAction = some (s', copying') := by
  have hcopy (h : (copyStep s task masterBalance subscriber copying workerAction).map
      (fun r => (r.1, Replicating.holding lockToken r.2)) =
        some (s', .holding lockToken' copying')) : lockToken' = lockToken ∧
          copyStep s task masterBalance subscriber copying workerAction = some (s', copying') := by
    obtain ⟨r, hstep, hr⟩ := Option.map_eq_some_iff.mp h
    cases hr
    exact ⟨rfl, hstep⟩
  cases copying with
  | releasing =>
    cases workerAction with
    | statement => cases h
    | fail message => cases h
    | _ => exact hcopy h
  | _ => exact hcopy h

/-! ### Steps of a message -/

/-- What one step of a message does, workers apart. -/
inductive MessageEffect (s : CopyStore) (h : Handling) : CopyStore → Handling → Prop
  | deduplicated (point : Point) (hpoint : h.point = .deduplicating)
      (hnext : point = .duplicate ∨ point = .following) :
    MessageEffect s h s { h with point }
  | followed {task : ReplicationSideTask} {tasks : List ReplicationSideTask}
      (hpoint : h.point = .following) (htasks : h.tasks = task :: tasks) :
    MessageEffect s h s
      { h with
        tasks
        followed := h.followed ++ s.db.findActiveByMaster task.masterId
        point := if s.db.findActiveByMaster task.masterId = [] then .following
          else .balancing task (s.db.findActiveByMaster task.masterId) }
  | marked {acknowledged : Bool} (hpoint : h.point = .following) (htasks : h.tasks = []) :
    MessageEffect s h (markProcessed s h.envelope) { h with point := .marked acknowledged }
  | balanced {task : ReplicationSideTask} {subscribers : List CopySubscription}
      {available : BigNumber} (hpoint : h.point = .balancing task subscribers) :
    MessageEffect s h s
      { h with
        point := nextBatch task available (chunks subscribers followerBatchConcurrency) }
  | advanced {task : ReplicationSideTask} {masterBalance : BigNumber} {workers : List Worker}
      {batches : List (List CopySubscription)}
      (hpoint : h.point = .running task masterBalance workers batches)
      (hsettled : ∀ worker ∈ workers, worker.progress = .settled) :
    MessageEffect s h s { h with point := nextBatch task masterBalance batches }
  | failed {message : String} : MessageEffect s h s { h with point := .failed message }

theorem all_settled {workers : List Worker}
    (h : (workers.all fun worker => worker.progress = .settled) = true) :
    ∀ worker ∈ workers, worker.progress = .settled := by
  simpa using h

theorem handleStep_cases (hstep : handleStep s h h.point action = some (s', h')) :
    MessageEffect s h s' h' ∨ ∃ task masterBalance workers batches i worker workerAction progress,
      h.point = .running task masterBalance workers batches ∧ action = .worker i workerAction ∧
        workers[i]? = some worker ∧
          replicateStep s task masterBalance worker.subscriber worker.progress workerAction =
            some (s', progress) ∧
            h' = { h with
              point := .running task masterBalance (workers.set i { worker with progress })
                batches } := by
  generalize hpoint : h.point = point at hstep
  cases point with
  | deduplicating =>
    cases action with
    | statement =>
      cases hstep
      refine Or.inl (.deduplicated _ hpoint ?_)
      split
      · exact Or.inl rfl
      · exact Or.inr rfl
    | fail message =>
      cases hstep
      exact Or.inl .failed
    | _ => cases hstep
  | following =>
    cases action with
    | statement =>
      simp only [handleStep] at hstep
      split at hstep
      · next htasks =>
        cases hstep
        exact Or.inl (.marked hpoint htasks)
      · next task tasks htasks =>
        cases hstep
        exact Or.inl (.followed hpoint htasks)
    | commitUnacknowledged =>
      simp only [handleStep] at hstep
      split at hstep
      · next htasks =>
        cases hstep
        exact Or.inl (.marked hpoint htasks)
      · cases hstep
    | fail message =>
      cases hstep
      exact Or.inl .failed
    | _ => cases hstep
  | balancing task subscribers =>
    cases action with
    | balance available =>
      cases hstep
      exact Or.inl (.balanced hpoint)
    | _ => cases hstep
  | running task masterBalance workers batches =>
    cases action with
    | worker i workerAction =>
      simp only [handleStep, Option.bind_eq_bind, Option.bind_eq_some_iff, Option.pure_def,
        Option.some.injEq, Prod.mk.injEq] at hstep
      obtain ⟨worker, hworker, ⟨s₁, progress⟩, hreplicate, rfl, rfl⟩ := hstep
      exact Or.inr ⟨task, masterBalance, workers, batches, i, worker, workerAction, progress, rfl,
        rfl, hworker, hreplicate, rfl⟩
    | heartbeat =>
      simp only [handleStep] at hstep
      split at hstep
      · next hsettled =>
        cases hstep
        exact Or.inl (.advanced hpoint (all_settled hsettled))
      · cases hstep
    | fail message =>
      simp only [handleStep] at hstep
      split at hstep <;> cases hstep
      exact Or.inl .failed
    | _ => cases hstep
  | _ => cases action <;> cases hstep

/-! ### Who is left -/

/-- The subscribers that a message has still to replicate to. -/
def pendingSubscribers : Point → List CopySubscription
  | .balancing _ subscribers => subscribers
  | .running _ _ workers batches => workers.map Worker.subscriber ++ batches.flatten
  | _ => []

theorem pendingSubscribers_nextBatch (task : ReplicationSideTask)
    (masterBalance : BigNumber) (batches : List (List CopySubscription)) :
    pendingSubscribers (nextBatch task masterBalance batches) = batches.flatten := by
  cases batches with
  | nil => rfl
  | cons batch batches =>
    have hstart : (batch.map Worker.start).map Worker.subscriber = batch := by
      rw [List.map_map]
      exact List.map_id batch
    rw [nextBatch, pendingSubscribers, hstart, List.flatten_cons]

theorem map_subscriber_set {workers : List Worker} {i : ℕ} {worker : Worker}
    (hworker : workers[i]? = some worker) :
    (workers.set i { worker with progress }).map Worker.subscriber =
      workers.map Worker.subscriber := by
  obtain ⟨hlt, rfl⟩ := List.getElem?_eq_some_iff.mp hworker
  have hlt' : i < (workers.map Worker.subscriber).length := by rwa [List.length_map]
  rw [List.map_set]
  have hself := List.set_getElem_self hlt'
  rwa [List.getElem_map] at hself

/-- The worker of a process with a number, and the task it works on. -/
def workerOf (l : Process) (i : ℕ) : Option (ReplicationSideTask × Worker) :=
  match l with
  | .handling h =>
    match h.point with
    | .running task _ workers _ => workers[i]?.map fun worker => (task, worker)
    | _ => none
  | _ => none

/-- The task of a process whose workers have started, and the balance that they size on. -/
def runningOn : Process → Option (ReplicationSideTask × BigNumber)
  | .handling h =>
    match h.point with
    | .running task masterBalance _ _ => some (task, masterBalance)
    | _ => none
  | _ => none

/-- The subscribers that a process has still to replicate to. -/
def pendingOf : Process → List CopySubscription
  | .handling h => pendingSubscribers h.point
  | _ => []

theorem subscriber_mem_pending {i : ℕ} {worker : Worker}
    (h : workerOf l i = some (task, worker)) : worker.subscriber ∈ pendingOf l := by
  unfold workerOf at h
  split at h
  · next handling =>
    split at h
    · next running masterBalance workers batches hpoint =>
      obtain ⟨worker', hworker, heq⟩ := Option.map_eq_some_iff.mp h
      cases heq
      rw [pendingOf, hpoint]
      exact List.mem_append_left _ (List.mem_map_of_mem (List.mem_of_getElem? hworker))
    · cases h
  · cases h

theorem pendingOf_acceptMessage (payload : KafkaBatchConsumerPayload) :
    pendingOf (acceptMessage s payload) = [] := by
  unfold acceptMessage
  split
  · rfl
  · split
    · rfl
    · split_ifs <;> rfl

/-- The workers of a new batch have yet to acquire their locks. -/
theorem workerOf_nextBatch {i : ℕ} {worker : Worker} {batches : List (List CopySubscription)}
    {running : ReplicationSideTask}
    (h : workerOf (.handling { h with point := nextBatch running masterBalance batches }) i =
      some (task, worker)) : worker.progress = .acquiring := by
  cases batches with
  | nil => cases h
  | cons batch batches =>
    obtain ⟨worker', hworker, heq⟩ := Option.map_eq_some_iff.mp h
    cases heq
    rw [List.getElem?_map] at hworker
    obtain ⟨subscriber, -, rfl⟩ := Option.map_eq_some_iff.mp hworker
    rfl

/-! ### Steps of a process -/

/-- Subscriptions stay, under their id and with their keys. -/
structure SubscriptionsKept (db db' : CopyTradingDb) : Prop where
  ids : KeyUnique CopySubscription.id db.copySubscriptions →
    KeyUnique CopySubscription.id db'.copySubscriptions
  rows : ∀ row ∈ db.copySubscriptions, ∃ row' ∈ db'.copySubscriptions,
    row'.id = row.id ∧ row'.follows = row.follows

theorem subscriptionsKept_of_eq (h : db'.copySubscriptions = db.copySubscriptions) :
    SubscriptionsKept db db' := by
  refine ⟨fun hids => ?_, fun row hrow => ⟨row, ?_, rfl, rfl⟩⟩
  · rwa [h]
  · rwa [h]

theorem subscriptionsKept_setSubscription (id : Uuid) {f : CopySubscription → CopySubscription}
    (hid : ∀ row, (f row).id = row.id) (hfollows : ∀ row, (f row).follows = row.follows) :
    SubscriptionsKept db (db.setSubscription id f) := by
  refine ⟨fun hids => keyUnique_map hids fun row _ => ?_, fun row hrow =>
    ⟨if row.id = id then f row else row, List.mem_map_of_mem hrow, ?_⟩⟩
  · split
    · exact hid row
    · rfl
  · split
    · exact ⟨hid row, hfollows row⟩
    · exact ⟨rfl, rfl⟩

/-- What one step of a process does. -/
inductive ProcessEffect (s : CopyStore) : Process → Action → CopyStore → Process → Prop
  | accepted (payload : KafkaBatchConsumerPayload) :
    ProcessEffect s .idle (.deliver payload) s (acceptMessage s payload)
  | world {action : Action} {s' : CopyStore}
      (hhistory : s'.db.copyOrdersHistory = s.db.copyOrdersHistory)
      (hsubscriptions : SubscriptionsKept s.db s'.db) (horders : s'.orders = s.orders)
      (hcalls : s'.calls = s.calls) : ProcessEffect s .idle action s' .idle
  | orders {event : Event OrdersTransactions.Action} {orders : OrdersConfig}
      (hnext : ordersSystem.next s.orders event = some orders) :
    ProcessEffect s .idle (.orders event) { s with orders } .idle
  | stopped {h : Handling} : ProcessEffect s (.handling h) .stop s .stopped
  | message {h h' : Handling} {action : Action} {s' : CopyStore}
      (heffect : MessageEffect s h s' h') :
    ProcessEffect s (.handling h) action s' (.handling h')
  | worker {h : Handling} {task : ReplicationSideTask} {masterBalance : BigNumber}
      {workers : List Worker} {batches : List (List CopySubscription)} {i : ℕ} {worker : Worker}
      {workerAction : WorkerAction} {s' : CopyStore} {progress : Replicating}
      (hpoint : h.point = .running task masterBalance workers batches)
      (hworker : workers[i]? = some worker)
      (hreplicate : replicateStep s task masterBalance worker.subscriber worker.progress
        workerAction = some (s', progress)) :
    ProcessEffect s (.handling h) (.worker i workerAction) s'
      (.handling { h with
        point := .running task masterBalance (workers.set i { worker with progress }) batches })

theorem createSubscription_cases {row : CopySubscription}
    (h : db.createSubscription row = some db') :
    db'.copyOrdersHistory = db.copyOrdersHistory ∧ SubscriptionsKept db db' := by
  unfold CopyTradingDb.createSubscription at h
  split at h
  · cases h
  · next hnew =>
    cases h
    simp only [Bool.or_eq_true, not_or, Bool.not_eq_true, Option.isSome_eq_false_iff,
      Option.isNone_iff_eq_none] at hnew
    exact ⟨rfl, fun hids => keyUnique_append_singleton hids hnew.1,
      fun row hrow => ⟨row, List.mem_append_left _ hrow, rfl, rfl⟩⟩

theorem step_cases (hstep : step s l action = some (s', l')) :
    ProcessEffect s l action s' l' := by
  cases l with
  | idle =>
    cases action with
    | deliver payload =>
      cases hstep
      exact .accepted payload
    | activateMaster userId masterId =>
      cases hstep
      exact .world rfl (subscriptionsKept_of_eq rfl) rfl rfl
    | createMaster row =>
      obtain ⟨masters, -, hr⟩ := Option.map_eq_some_iff.mp hstep
      cases hr
      exact .world rfl (subscriptionsKept_of_eq rfl) rfl rfl
    | createSubscription row =>
      obtain ⟨db, hcreate, hr⟩ := Option.map_eq_some_iff.mp hstep
      cases hr
      obtain ⟨hhistory, hkept⟩ := createSubscription_cases hcreate
      exact .world hhistory hkept rfl rfl
    | reactivateSubscription id allocatedBalance maxSlippagePercent =>
      cases hstep
      exact .world rfl (subscriptionsKept_setSubscription id (fun _ => rfl) fun _ => rfl) rfl rfl
    | updateStatus id status =>
      cases hstep
      exact .world rfl (subscriptionsKept_setSubscription id (fun _ => rfl) fun _ => rfl) rfl rfl
    | orders event =>
      obtain ⟨orders, hnext, hr⟩ := Option.map_eq_some_iff.mp hstep
      cases hr
      exact .orders hnext
    | _ => cases hstep
  | handling h =>
    have hhandle (hstep : (handleStep s h h.point action).map
        (fun r => (r.1, Process.handling r.2)) = some (s', l')) :
        ProcessEffect s (.handling h) action s' l' := by
      obtain ⟨⟨s₁, h'⟩, hhandle, hr⟩ := Option.map_eq_some_iff.mp hstep
      cases hr
      rcases handleStep_cases hhandle with heffect | ⟨task, masterBalance, workers, batches, i,
        worker, workerAction, progress, hpoint, rfl, hworker, hreplicate, rfl⟩
      · exact .message heffect
      · exact .worker hpoint hworker hreplicate
    cases action with
    | stop =>
      cases hstep
      exact .stopped
    | _ => exact hhandle hstep
  | _ => cases hstep

/-- The workers of a process after a step: as they were, just started, or one step further. -/
theorem worker_step {i : ℕ} {worker' : Worker} (hstep : step s l action = some (s', l'))
    (h : workerOf l' i = some (task, worker')) :
    (workerOf l i = some (task, worker') ∧ ∀ workerAction, action ≠ .worker i workerAction) ∨
      worker'.progress = .acquiring ∨
        ∃ worker workerAction masterBalance, action = .worker i workerAction ∧
          workerOf l i = some (task, worker) ∧ runningOn l = some (task, masterBalance) ∧
            worker'.subscriber = worker.subscriber ∧
              replicateStep s task masterBalance worker.subscriber worker.progress workerAction =
                some (s', worker'.progress) := by
  have heffect := step_cases hstep
  cases heffect with
  | accepted payload =>
    have hpending := subscriber_mem_pending h
    rw [pendingOf_acceptMessage] at hpending
    cases hpending
  | world => cases h
  | orders => cases h
  | stopped => cases h
  | message heffect =>
    cases heffect with
    | deduplicated point hpoint hnext => rcases hnext with rfl | rfl <;> cases h
    | followed hpoint htasks =>
      unfold workerOf at h
      dsimp only at h
      split_ifs at h
    | marked => cases h
    | balanced => exact Or.inr (Or.inl (workerOf_nextBatch h))
    | advanced => exact Or.inr (Or.inl (workerOf_nextBatch h))
    | failed => cases h
  | @worker handling running masterBalance workers batches j worker workerAction _ progress hpoint
      hworker hreplicate =>
    obtain ⟨found, hfound, heq⟩ := Option.map_eq_some_iff.mp h
    cases heq
    have hof (k : ℕ) : workerOf (.handling handling) k =
        workers[k]?.map fun worker => (task, worker) := by
      simp only [workerOf, hpoint]
    by_cases hj : j = i
    · subst hj
      obtain ⟨hlt, -⟩ := List.getElem?_eq_some_iff.mp hworker
      rw [List.getElem?_set_self hlt] at hfound
      cases hfound
      refine Or.inr (Or.inr ⟨worker, workerAction, masterBalance, rfl, ?_, ?_, rfl, hreplicate⟩)
      · rw [hof, hworker, Option.map_some]
      · simp only [runningOn, hpoint]
    · rw [List.getElem?_set_ne hj] at hfound
      refine Or.inl ⟨?_, fun _ haction => hj (Action.worker.inj haction).1⟩
      rw [hof, hfound, Option.map_some]

/-- Workers start on a balance that has been read, and on no other. -/
theorem runningOn_kept (hother : ∀ available, action ≠ .balance available)
    (hstep : step s l action = some (s', l'))
    (h : runningOn l' = some (task, masterBalance)) : runningOn l = some (task, masterBalance) := by
  have heffect := step_cases hstep
  cases heffect with
  | accepted payload =>
    have hnone : runningOn (acceptMessage s payload) = none := by
      unfold acceptMessage
      split
      · rfl
      · split
        · rfl
        · split_ifs <;> rfl
    cases hnone.symm.trans h
  | world => cases h
  | orders => cases h
  | stopped => cases h
  | message heffect =>
    cases heffect with
    | deduplicated point hpoint hnext => rcases hnext with rfl | rfl <;> cases h
    | followed hpoint htasks =>
      simp only [runningOn] at h
      split_ifs at h
    | marked => cases h
    | balanced hpoint =>
      cases action with
      | balance available => exact absurd rfl (hother available)
      | stop => cases hstep
      | _ =>
        simp only [step, hpoint] at hstep
        cases hstep
    | @advanced running balance workers batches hpoint hsettled =>
      cases batches with
      | nil => cases h
      | cons batch batches =>
        cases h
        simp only [runningOn, hpoint]
    | failed => cases h
  | worker hpoint hworker hreplicate =>
    cases h
    simp only [runningOn, hpoint]

theorem runningOn_balanced {running : ReplicationSideTask} {subscribers : List CopySubscription}
    {available : BigNumber} (hpoint : h.point = .balancing running subscribers)
    (hstep : step s (.handling h) (.balance available) = some (s', l'))
    (hrunning : runningOn l' = some (task, masterBalance)) :
    task = running ∧ masterBalance = available := by
  obtain ⟨⟨s₁, h'⟩, hhandle, heq⟩ := Option.map_eq_some_iff.mp hstep
  cases heq
  rw [hpoint] at hhandle
  cases hhandle
  generalize chunks subscribers _ = batches at hrunning
  cases batches with
  | nil => cases hrunning
  | cons batch batches =>
    cases hrunning
    exact ⟨rfl, rfl⟩

/-- Who is left to replicate to has been left before, or was read from the database. -/
theorem pending_step (hstep : step s l action = some (s', l')) (h : subscriber ∈ pendingOf l') :
    subscriber ∈ pendingOf l ∨ subscriber ∈ s.db.copySubscriptions := by
  have heffect := step_cases hstep
  cases heffect with
  | accepted payload =>
    rw [pendingOf_acceptMessage] at h
    cases h
  | world => cases h
  | orders => cases h
  | stopped => cases h
  | message heffect =>
    cases heffect with
    | deduplicated point hpoint hnext => rcases hnext with rfl | rfl <;> cases h
    | followed hpoint htasks =>
      simp only [pendingOf] at h
      split_ifs at h
      · cases h
      · exact Or.inr (List.mem_filter.mp h).1
    | marked => cases h
    | balanced hpoint =>
      simp only [pendingOf, pendingSubscribers_nextBatch] at h
      rw [flatten_chunks _ (by decide)] at h
      refine Or.inl ?_
      rwa [pendingOf, hpoint]
    | advanced hpoint =>
      simp only [pendingOf, pendingSubscribers_nextBatch] at h
      refine Or.inl ?_
      rw [pendingOf, hpoint]
      exact List.mem_append_right _ h
    | failed => cases h
  | worker hpoint hworker =>
    refine Or.inl ?_
    rw [pendingOf, hpoint]
    rwa [pendingOf, pendingSubscribers, map_subscriber_set hworker] at h

end EtherTrade.MasterTradeReplicationSteps
