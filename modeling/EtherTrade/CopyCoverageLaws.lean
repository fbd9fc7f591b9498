import EtherTrade.CopyHistory

/-!
# Copy replication loses no subscriber

Every worker ends with a row of its copy in the history, unless it gives up: on a lock that
it does not get, on a position that it cannot read, on the insert of a skipped or failed
copy. A side of a trade is replicated when the master is in the map of the instance. Where
workers give up only on copies that have a row, and messages that are taken up find their
masters in the map, a message is marked processed only when each subscriber that was active
for a master of the trade has exactly one row.
-/

namespace EtherTrade.CopyCoverageLaws

open KeyedRows AccountsSchema CopyTradingSchema InterleavedProcesses DistributedLockService
open MasterTradeReplication MasterTradeReplicationSteps CopyHistory CopyTradingConstants
open TradeSettlement (DomainEventEnvelope TradeExecutedEvent KafkaBatchConsumerPayload tradeExecuted)

variable {s s' : CopyStore} {db db' : CopyTradingDb} {task : ReplicationSideTask}
  {subscriber : CopySubscription} {copying : Copying} {progress progress' : Replicating}
  {workerAction : WorkerAction} {copy : Copy} {h h' : Handling} {l l' : Process} {action : Action}
  {c d : CopyConfig} {e : Event Action} {es : List (Event Action)} {t : CopyTransition}
  {ts : List CopyTransition} {p : ℕ}

/-! ### Workers -/

/-- The worker has nothing left to insert. -/
def Ended : Replicating → Prop
  | .settled => True
  | .holding _ .releasing => True
  | _ => False

/-- The action ends the replication of the subscriber without an insert. -/
def givesUp (s : CopyStore) (subscriber : CopySubscription) : Replicating → WorkerAction → Bool
  | .acquiring, .acquire _ =>
    (unexpired s.locks s.now (followerLock subscriber.followerUserId)).isSome
  | .acquiring, .acquireUnacknowledged _ => true
  | .acquiring, .fail _ => true
  | .holding _ .sizing, .fail _ => true
  | .holding _ (.skipping _), .fail _ => true
  | .holding _ (.failing _ _), .fail _ => true
  | .holding _ (.skipping _), .insertUnacknowledged newId => idTaken s.db newId
  | .holding _ (.failing _ _), .insertUnacknowledged newId => idTaken s.db newId
  | .holding _ _, .insert newId => idTaken s.db newId
  | _, _ => false

/-- A worker that does not give up ends with a row of its copy. -/
theorem hasRow_of_ended
    (hcovered : Ended progress → HasRow s.db (subscriber.id, task.tradeId))
    (hgives : givesUp s subscriber progress workerAction = true →
      HasRow s.db (subscriber.id, task.tradeId))
    {masterBalance : DecimalNumbers.BigNumber}
    (hstep : replicateStep s task masterBalance subscriber progress workerAction =
      some (s', progress')) (hended : Ended progress') :
    HasRow s'.db (subscriber.id, task.tradeId) := by
  have heffect := replicateStep_cases hstep
  cases heffect with
  | locked => exact hended.elim
  | refused locks =>
    cases workerAction with
    | acquire lockToken =>
      refine hgives ?_
      simp only [replicateStep, acquireLock] at hstep
      split at hstep
      · next hnone =>
        simp only [givesUp]
        by_contra hfree
        rw [if_neg hfree] at hnone
        cases hnone
      · cases hstep
    | acquireUnacknowledged lockToken => exact hgives rfl
    | fail message => exact hgives rfl
    | _ => cases hstep
  | released locks => exact hcovered trivial
  | @copied _ copying _ _ _ heffect =>
    cases heffect with
    | dust quantity => exact hended.elim
    | sized quantity => exact hended.elim
    | called => exact hended.elim
    | replied hresponse => exact hended.elim
    | inserted hrecord hcreate hnext =>
      have hcopy := (pendingRecord_copy hrecord).1
      rw [← hcopy] at hgives ⊢
      refine hasRow_createHistory hcreate fun htaken => hgives ?_
      rcases hnext with ⟨rfl, -⟩ | ⟨rfl, rfl⟩
      · cases copying <;> exact htaken
      · cases copying with
        | skipping quantity => exact htaken
        | failing request reason => exact htaken
        | sizing => cases hrecord
        | releasing => cases hrecord
        | _ => exact hended.elim
    | failed =>
      cases copying with
      | sizing => exact hgives rfl
      | skipping quantity => exact hgives rfl
      | failing request reason => exact hgives rfl
      | releasing => exact hcovered trivial
      | _ => exact hended.elim

/-! ### Messages -/

/-- The task at hand is one of the trade, and its workers end with a row. -/
def PointCovers (db : CopyTradingDb) (tradeId : Uuid) : Point → Prop
  | .balancing task _ => task.tradeId = tradeId
  | .running task _ workers _ => task.tradeId = tradeId ∧
    ∀ worker ∈ workers, Ended worker.progress → HasRow db (worker.subscriber.id, tradeId)
  | _ => True

/-- Each subscriber of a message that has not failed has a row or is yet to get one. -/
structure Covers (db : CopyTradingDb) (h : Handling) : Prop where
  tasks : ∀ task ∈ h.tasks, task.tradeId = h.trade.tradeId
  point : PointCovers db h.trade.tradeId h.point
  followed : ∀ subscriber ∈ h.followed, HasRow db (subscriber.id, h.trade.tradeId) ∨
    subscriber ∈ pendingSubscribers h.point ∨ ∃ message, h.point = .failed message

/-- When nobody is waited for, each subscriber has a row. -/
theorem Covers.hasRow (hc : Covers db h) (hnobody : pendingSubscribers h.point = [])
    (hgoes : ∀ message, h.point ≠ .failed message) {subscriber : CopySubscription}
    (hsub : subscriber ∈ h.followed) : HasRow db (subscriber.id, h.trade.tradeId) := by
  rcases hc.followed subscriber hsub with hrow | hpending | ⟨message, hfailed⟩
  · exact hrow
  · rw [hnobody] at hpending
    cases hpending
  · exact absurd hfailed (hgoes message)

def ProcessCovers (db : CopyTradingDb) : Process → Prop
  | .handling h => Covers db h
  | _ => True

theorem processCovers_of_rows (hrows : ∀ copy, HasRow db copy → HasRow db' copy)
    (h : ProcessCovers db l) : ProcessCovers db' l := by
  cases l with
  | handling h' =>
    obtain ⟨htasks, hpoint, hfollowed⟩ := h
    refine ⟨htasks, ?_, fun subscriber hsub => (hfollowed subscriber hsub).imp_left (hrows _)⟩
    revert hpoint
    cases h'.point with
    | running task masterBalance workers batches =>
      intro hpoint
      exact ⟨hpoint.1, fun worker hworker hended => hrows _ (hpoint.2 worker hworker hended)⟩
    | _ => exact id
  | _ => trivial

theorem sideTasks_tradeId {trade : TradeExecutedEvent} :
    ∀ task ∈ sideTasks s trade, task.tradeId = trade.tradeId := by
  intro task htask
  simp only [sideTasks, List.mem_append, Option.mem_toList,
    Option.map_eq_some_iff] at htask
  rcases htask with ⟨masterId, -, rfl⟩ | ⟨masterId, -, rfl⟩ <;> rfl

/-- The trade that a message carries. -/
def carriedTrade (payload : KafkaBatchConsumerPayload) : Option TradeExecutedEvent :=
  payload.value.bind DomainEventEnvelope.payload

/-- A message that is taken up carries a trade with a master on a side. -/
theorem acceptMessage_cases (payload : KafkaBatchConsumerPayload) :
    (∃ message, acceptMessage s payload = .thrown message) ∨
      acceptMessage s payload = .ignored ∨
        ∃ envelope trade, carriedTrade payload = some trade ∧ sideTasks s trade ≠ [] ∧
          acceptMessage s payload =
            .handling ⟨envelope, trade, sideTasks s trade, [], .deduplicating⟩ := by
  unfold acceptMessage carriedTrade
  split
  · exact Or.inl ⟨_, rfl⟩
  · next envelope hvalue =>
    rw [hvalue, Option.bind_some]
    split
    · exact Or.inl ⟨_, rfl⟩
    · next trade hpayload =>
      split_ifs with hid haction htasks
      · exact Or.inl ⟨_, rfl⟩
      · exact Or.inr (Or.inl rfl)
      · exact Or.inr (Or.inl rfl)
      · exact Or.inr (Or.inr ⟨envelope, trade, hpayload, htasks, rfl⟩)

theorem processCovers_acceptMessage (payload : KafkaBatchConsumerPayload) :
    ProcessCovers s.db (acceptMessage s payload) := by
  rcases acceptMessage_cases (s := s) payload with ⟨message, heq⟩ | heq |
    ⟨envelope, trade, -, -, heq⟩ <;> rw [heq]
  · trivial
  · trivial
  · exact ⟨sideTasks_tradeId, trivial, nofun⟩

theorem pointCovers_nextBatch {tradeId : Uuid} (htask : task.tradeId = tradeId)
    (masterBalance : DecimalNumbers.BigNumber) (batches : List (List CopySubscription)) :
    PointCovers db tradeId (nextBatch task masterBalance batches) := by
  cases batches with
  | nil => trivial
  | cons batch batches =>
    refine ⟨htask, fun worker hworker hended => ?_⟩
    obtain ⟨subscriber, -, rfl⟩ := List.mem_map.mp hworker
    exact hended.elim

theorem covers_message (hc : Covers s.db h) (heffect : MessageEffect s h s' h') :
    Covers s.db h' := by
  have htasks := hc.tasks
  have hpointCovers := hc.point
  have hfollowed := hc.followed
  cases heffect with
  | deduplicated point hpoint hnext =>
    refine ⟨htasks, ?_, fun subscriber hsub => Or.inl (hc.hasRow ?_ ?_ hsub)⟩
    · rcases hnext with rfl | rfl <;> trivial
    · rw [hpoint]
      rfl
    · simp [hpoint]
  | @followed task tasks hpoint hcons =>
    rw [hcons] at htasks
    refine ⟨fun task htask => htasks task (List.mem_cons_of_mem _ htask), ?_,
      fun subscriber hsub => ?_⟩
    · dsimp only
      split
      · trivial
      · exact htasks task List.mem_cons_self
    · rcases List.mem_append.mp hsub with hold | hnew
      · refine Or.inl (hc.hasRow ?_ ?_ hold)
        · rw [hpoint]
          rfl
        · simp [hpoint]
      · refine Or.inr (Or.inl ?_)
        have hne : s.db.findActiveByMaster task.masterId ≠ [] := List.ne_nil_of_mem hnew
        rwa [if_neg hne]
  | marked hpoint hnil =>
    refine ⟨htasks, trivial, fun subscriber hsub => Or.inl (hc.hasRow ?_ ?_ hsub)⟩
    · rw [hpoint]
      rfl
    · simp [hpoint]
  | @balanced task subscribers available hpoint =>
    rw [hpoint] at hfollowed hpointCovers
    refine ⟨htasks, pointCovers_nextBatch hpointCovers _ _, fun subscriber hsub => ?_⟩
    rw [pendingSubscribers_nextBatch, flatten_chunks subscribers (by decide)]
    rcases hfollowed subscriber hsub with hrow | hpending | ⟨message, hfailed⟩
    · exact Or.inl hrow
    · exact Or.inr (Or.inl hpending)
    · cases hfailed
  | @advanced task masterBalance workers batches hpoint hsettled =>
    rw [hpoint] at hfollowed hpointCovers
    refine ⟨htasks, pointCovers_nextBatch hpointCovers.1 _ _, fun subscriber hsub => ?_⟩
    rw [pendingSubscribers_nextBatch]
    rcases hfollowed subscriber hsub with hrow | hpending | ⟨message, hfailed⟩
    · exact Or.inl hrow
    · rcases List.mem_append.mp hpending with hworker | hbatch
      · obtain ⟨worker, hmem, rfl⟩ := List.mem_map.mp hworker
        have hended : Ended worker.progress := by
          rw [hsettled worker hmem]
          trivial
        exact Or.inl (hpointCovers.2 worker hmem hended)
      · exact Or.inr (Or.inl hbatch)
    · cases hfailed
  | failed => exact ⟨htasks, trivial, fun subscriber _ => Or.inr (Or.inr ⟨_, rfl⟩)⟩

/-! ### Runs -/

/-- A worker gives up only on a copy that has a row. -/
def GivesUpCovered (c : CopyConfig) (e : Event Action) : Prop :=
  ∀ i workerAction task worker, e.action = .worker i workerAction →
    workerOf (c.procs e.proc) i = some (task, worker) →
      givesUp c.shared worker.subscriber worker.progress workerAction = true →
        HasRow c.shared.db (worker.subscriber.id, task.tradeId)

theorem processCovers_own {p : ℕ} (hguard : GivesUpCovered c ⟨p, action⟩)
    (hc : ProcessCovers c.shared.db (c.procs p))
    (hstep : step c.shared (c.procs p) action = some (s', l')) : ProcessCovers s'.db l' := by
  have heffect := step_cases hstep
  have hrows (copy : Copy) (hrow : HasRow c.shared.db copy) : HasRow s'.db copy :=
    hasRow_step hrow hstep
  generalize hl : c.procs p = l at heffect hc
  cases heffect with
  | accepted payload => exact processCovers_acceptMessage payload
  | world => trivial
  | orders => trivial
  | stopped => trivial
  | message heffect => exact processCovers_of_rows hrows (covers_message hc heffect)
  | @worker h task masterBalance workers batches i worker workerAction _ progress hpoint hworker
      hreplicate =>
    obtain ⟨htasks, hpointCovers, hfollowed⟩ := hc
    rw [hpoint] at hpointCovers hfollowed
    obtain ⟨htask, hworkers⟩ := hpointCovers
    have hmem : worker ∈ workers := List.mem_of_getElem? hworker
    have hgives : givesUp c.shared worker.subscriber worker.progress workerAction = true →
        HasRow c.shared.db (worker.subscriber.id, task.tradeId) := by
      refine hguard i workerAction task worker rfl ?_
      simp only [workerOf, hl, hpoint, hworker, Option.map_some]
    refine ⟨htasks, ⟨htask, fun worker' hworker' hended => ?_⟩, fun subscriber hsub => ?_⟩
    · rcases List.mem_or_eq_of_mem_set hworker' with hold | rfl
      · exact hrows _ (hworkers worker' hold hended)
      · rw [← htask]
        refine hasRow_of_ended (fun hended => ?_) hgives hreplicate hended
        rw [htask]
        exact hworkers worker hmem hended
    · rcases hfollowed subscriber hsub with hrow | hpending | ⟨message, hfailed⟩
      · exact Or.inl (hrows _ hrow)
      · refine Or.inr (Or.inl ?_)
        rwa [pendingSubscribers, map_subscriber_set hworker]
      · cases hfailed

/-- The history is well kept, and messages cover their subscribers. -/
structure AllCover (c : CopyConfig) : Prop where
  history : WellKept c.shared.db
  processes : ∀ p, ProcessCovers c.shared.db (c.procs p)

theorem allCover_next (hc : AllCover c) (hguard : GivesUpCovered c e)
    (hnext : replicationSystem.next c e = some d) : AllCover d := by
  obtain ⟨s', l', hstep, rfl⟩ := System.next_eq_some.mp hnext
  refine ⟨wellKept_step hc.history hstep, fun p => ?_⟩
  by_cases hp : p = e.proc
  · subst hp
    simpa using processCovers_own hguard (hc.processes e.proc) hstep
  · simpa only [Function.update_of_ne hp] using
      processCovers_of_rows (fun copy hrow => hasRow_step hrow hstep) (hc.processes p)

theorem wellKept_empty : WellKept .empty :=
  ⟨keyUnique_nil, fun _ hrow => absurd hrow List.not_mem_nil⟩

theorem allCover_initial : AllCover initial := ⟨wellKept_empty, fun _ => trivial⟩

/-- Each subscriber that a message has found active has one row when the message is marked. -/
theorem AllCover.hasOneRow (hc : AllCover c) (hp : c.procs p = .handling h) {acknowledged : Bool}
    (hmarked : h.point = .marked acknowledged) {subscriber : CopySubscription}
    (hsub : subscriber ∈ h.followed) :
    HasOneRow c.shared.db (subscriber.id, h.trade.tradeId) := by
  have hcovers : ProcessCovers c.shared.db (.handling h) := hp ▸ hc.processes p
  refine hc.history.hasOneRow (Covers.hasRow hcovers ?_ ?_ hsub)
  · rw [hmarked]
    rfl
  · simp [hmarked]

/-! ### The masters of a trade -/

/-- The master is on a side of the trade. -/
def OnSide (trade : TradeExecutedEvent) (master : MasterTrader) : Prop :=
  master.userId = trade.buyerUserId ∨ master.userId = trade.sellerUserId

instance (trade : TradeExecutedEvent) (master : MasterTrader) : Decidable (OnSide trade master) :=
  inferInstanceAs (Decidable (_ ∨ _))

def handles : Process → Bool
  | .handling _ => true
  | _ => false

/-- The transition hands the trade to the process. -/
def Delivers (t : CopyTransition) (p : ℕ) (trade : TradeExecutedEvent) : Prop :=
  ∃ payload, t.event = ⟨p, .deliver payload⟩ ∧ carriedTrade payload = some trade

/-- At a moment while the process handled its message, each subscriber that was active for the
master had the property. -/
def HeldWhenActive (ts : List CopyTransition) (p : ℕ) (masterId : Uuid)
    (property : CopySubscription → Prop) : Prop :=
  ∃ t ∈ ts, handles (t.after.procs p) = true ∧
    ∀ subscriber ∈ t.after.shared.db.findActiveByMaster masterId, property subscriber

/-- Whoever has marked its event as processed has left one row for each subscriber that it
found active, and for each that was active, at a moment while it handled the message, for an
active master on a side of the trade. Each process handles one message. -/
structure NoneLost (ts : List CopyTransition) (d : CopyConfig) : Prop where
  found : ∀ p h acknowledged, d.procs p = .handling h → h.point = .marked acknowledged →
    ∀ subscriber ∈ h.followed, HasOneRow d.shared.db (subscriber.id, h.trade.tradeId)
  active : ∀ p h acknowledged, d.procs p = .handling h → h.point = .marked acknowledged →
    ∀ t ∈ ts, ∀ trade, Delivers t p trade →
      ∀ master ∈ t.before.shared.masters, master.isActive = true → OnSide trade master →
        HeldWhenActive ts p master.id fun subscriber =>
          HasOneRow d.shared.db (subscriber.id, trade.tradeId)

/-- A message that is taken up finds in the map each master of its trade who has active
subscribers. -/
def MastersMapped (c : CopyConfig) (e : Event Action) : Prop :=
  ∀ payload trade, e.action = .deliver payload → carriedTrade payload = some trade →
    sideTasks c.shared trade ≠ [] →
      ∀ master ∈ c.shared.masters, master.isActive = true → OnSide trade master →
        c.shared.db.findActiveByMaster master.id ≠ [] →
          c.shared.activeMasters master.userId = some master.id

/-- No subscriber is passed over: by a worker, or with its master. -/
def NonePassedOver (c : CopyConfig) (e : Event Action) : Prop :=
  GivesUpCovered c e ∧ MastersMapped c e

theorem HeldWhenActive.mono {ts' : List CopyTransition} {masterId : Uuid}
    {property property' : CopySubscription → Prop} (h : HeldWhenActive ts p masterId property)
    (hts : ts ⊆ ts') (hproperty : ∀ subscriber, property subscriber → property' subscriber) :
    HeldWhenActive ts' p masterId property' := by
  obtain ⟨t, ht, hhandles, hall⟩ := h
  exact ⟨t, hts ht, hhandles, fun subscriber hsub => hproperty _ (hall subscriber hsub)⟩

/-- A master of a trade that the process was handed has its side left to do, or has had its
active subscribers found. -/
def SidesFollowed (ts : List CopyTransition) (p : ℕ) (h : Handling) : Prop :=
  ∀ t ∈ ts, ∀ trade, Delivers t p trade → h.trade = trade ∧
    ∀ master ∈ t.before.shared.masters, master.isActive = true → OnSide trade master →
      (∃ task ∈ h.tasks, task.masterId = master.id) ∨
        HeldWhenActive ts p master.id fun subscriber => subscriber ∈ h.followed

/-- Sides are left out by nobody, and none is left when a message is marked. -/
def ProcessFollows (ts : List CopyTransition) (p : ℕ) : Process → Prop
  | .idle => ∀ t ∈ ts, ∀ trade, ¬Delivers t p trade
  | .handling h => SidesFollowed ts p h ∧ ∀ acknowledged, h.point = .marked acknowledged →
      h.tasks = []
  | _ => True

/-- Sides stay followed when a side that is left is followed, or stays. -/
theorem SidesFollowed.extend (hsides : SidesFollowed ts p h) (hnew : ∀ trade, ¬Delivers t p trade)
    (htrade : h'.trade = h.trade) (hfollowed : h.followed ⊆ h'.followed)
    (htasks : ∀ task ∈ h.tasks, task ∈ h'.tasks ∨
      HeldWhenActive (ts ++ [t]) p task.masterId fun subscriber => subscriber ∈ h'.followed) :
    SidesFollowed (ts ++ [t]) p h' := by
  intro t' ht' trade hdelivers
  rcases List.mem_append.mp ht' with hold | hlast
  · obtain ⟨heq, hmasters⟩ := hsides t' hold trade hdelivers
    refine ⟨htrade.trans heq, fun master hmaster hactive hside => ?_⟩
    rcases hmasters master hmaster hactive hside with ⟨task, htask, hid⟩ | hheld
    · rcases htasks task htask with hleft | hheld
      · exact Or.inl ⟨task, hleft, hid⟩
      · exact Or.inr (hid ▸ hheld)
    · exact Or.inr (hheld.mono (List.subset_append_left _ _) fun _ hsub => hfollowed hsub)
  · obtain rfl := List.mem_singleton.mp hlast
    exact absurd hdelivers (hnew trade)

theorem mem_sideTasks {trade : TradeExecutedEvent} {master : MasterTrader}
    (hside : OnSide trade master) (hmapped : s.activeMasters master.userId = some master.id) :
    ∃ task ∈ sideTasks s trade, task.masterId = master.id := by
  rcases hside with hbuyer | hseller
  · refine ⟨sideTask trade .buy trade.buyerUserId master.id, ?_, rfl⟩
    rw [hbuyer] at hmapped
    simp [sideTasks, hmapped]
  · refine ⟨sideTask trade .sell trade.sellerUserId master.id, ?_, rfl⟩
    rw [hseller] at hmapped
    simp [sideTasks, hmapped]

/-- The message that is taken up is the first that the process is handed. -/
theorem processFollows_accepted {payload : KafkaBatchConsumerPayload}
    (hmapped : MastersMapped c ⟨p, .deliver payload⟩)
    (hnone : ∀ t ∈ ts, ∀ trade, ¬Delivers t p trade) :
    ProcessFollows (ts ++ [⟨c, ⟨p, .deliver payload⟩, ⟨c.shared, Function.update c.procs p
      (acceptMessage c.shared payload)⟩⟩]) p (acceptMessage c.shared payload) := by
  rcases acceptMessage_cases (s := c.shared) payload with ⟨message, heq⟩ | heq |
    ⟨envelope, trade, hcarried, htasks, heq⟩ <;> rw [heq]
  · trivial
  · trivial
  · refine ⟨fun t' ht' trade' hdelivers => ?_, nofun⟩
    rcases List.mem_append.mp ht' with hold | hlast
    · exact absurd hdelivers (hnone t' hold trade')
    · obtain rfl := List.mem_singleton.mp hlast
      obtain ⟨payload', hevent, hcarried'⟩ := hdelivers
      cases hevent
      obtain rfl : trade = trade' := Option.some.inj (hcarried.symm.trans hcarried')
      refine ⟨rfl, fun master hmaster hactive hside => ?_⟩
      by_cases hnobody : c.shared.db.findActiveByMaster master.id = []
      · refine Or.inr ⟨_, List.mem_append_right _ List.mem_cons_self, ?_, ?_⟩
        · simp [handles]
        · simp [hnobody]
      · exact Or.inl (mem_sideTasks hside
          (hmapped payload trade rfl hcarried htasks master hmaster hactive hside hnobody))

theorem deliver_idle {payload : KafkaBatchConsumerPayload}
    (hstep : step s l (.deliver payload) = some (s', l')) :
    l = .idle ∧ l' = acceptMessage s payload := by
  cases l with
  | idle =>
    cases hstep
    exact ⟨rfl, rfl⟩
  | handling h =>
    obtain ⟨r, hhandle, -⟩ := Option.map_eq_some_iff.mp hstep
    generalize h.point = point at hhandle
    cases point <;> cases hhandle
  | _ => cases hstep

theorem acceptMessage_ne_idle (payload : KafkaBatchConsumerPayload) :
    acceptMessage s payload ≠ .idle := by
  rcases acceptMessage_cases (s := s) payload with ⟨message, heq⟩ | heq |
    ⟨envelope, trade, -, -, heq⟩ <;> rw [heq] <;> nofun

/-- A message that goes on follows the side that it takes up next. -/
theorem processFollows_message (hfollows : ProcessFollows ts p (.handling h))
    (hnew : ∀ trade, ¬Delivers t p trade) (hhandles : handles (t.after.procs p) = true)
    (hdb : t.after.shared.db.copySubscriptions = s.db.copySubscriptions)
    (heffect : MessageEffect s h s' h') : ProcessFollows (ts ++ [t]) p (.handling h') := by
  obtain ⟨hsides, -⟩ := hfollows
  have hsame : SidesFollowed (ts ++ [t]) p h :=
    hsides.extend hnew rfl (List.Subset.refl _) fun _ htask => Or.inl htask
  have hnextBatch (task : ReplicationSideTask) (balance : DecimalNumbers.BigNumber)
      (batches : List (List CopySubscription)) (acknowledged : Bool) :
      nextBatch task balance batches ≠ .marked acknowledged := by
    cases batches <;> nofun
  cases heffect with
  | deduplicated point hpoint hnext =>
    refine ⟨hsame, fun acknowledged hmarked => ?_⟩
    rcases hnext with rfl | rfl <;> cases hmarked
  | @followed task tasks hpoint hcons =>
    refine ⟨hsides.extend hnew rfl (List.subset_append_left _ _) fun left hleft => ?_,
      fun acknowledged hmarked => ?_⟩
    · rw [hcons] at hleft
      rcases List.mem_cons.mp hleft with rfl | hleft
      · refine Or.inr ⟨t, List.mem_append_right _ List.mem_cons_self, hhandles, ?_⟩
        intro subscriber hsub
        refine List.mem_append_right _ ?_
        rwa [CopyTradingDb.findActiveByMaster, hdb] at hsub
      · exact Or.inl hleft
    · dsimp only at hmarked
      split at hmarked <;> cases hmarked
  | marked hpoint hnil => exact ⟨hsame, fun _ _ => hnil⟩
  | balanced hpoint => exact ⟨hsame, fun _ hmarked => (hnextBatch _ _ _ _ hmarked).elim⟩
  | advanced hpoint => exact ⟨hsame, fun _ hmarked => (hnextBatch _ _ _ _ hmarked).elim⟩
  | failed => exact ⟨hsame, nofun⟩

theorem handling_ne_idle : Process.handling h ≠ .idle := by
  intro heq
  cases heq

/-- A message that goes on leaves the subscriptions as they are. -/
theorem copySubscriptions_message (heffect : MessageEffect s h s' h') :
    s'.db.copySubscriptions = s.db.copySubscriptions := by
  cases heffect with
  | marked =>
    simp only [markProcessed, setDb, CopyTradingDb.markProcessed]
    split <;> rfl
  | _ => rfl

/-- Nothing was delivered, and nothing is now. -/
theorem not_delivers_append (hnone : ∀ t ∈ ts, ∀ trade, ¬Delivers t p trade)
    (hnew : ∀ trade, ¬Delivers t p trade) : ∀ t' ∈ ts ++ [t], ∀ trade, ¬Delivers t' p trade := by
  intro t' ht'
  rcases List.mem_append.mp ht' with hold | hlast
  · exact hnone t' hold
  · obtain rfl := List.mem_singleton.mp hlast
    exact hnew

/-- What a process does keeps account of the sides of its trade. -/
theorem processFollows_own (hmapped : MastersMapped c ⟨p, action⟩)
    (hfollows : ProcessFollows ts p (c.procs p))
    (hstep : step c.shared (c.procs p) action = some (s', l')) :
    ProcessFollows (ts ++ [⟨c, ⟨p, action⟩, ⟨s', Function.update c.procs p l'⟩⟩]) p l' := by
  have heffect := step_cases hstep
  have hnew (hbusy : c.procs p ≠ .idle ∨ l' = .idle) (trade : TradeExecutedEvent) :
      ¬Delivers ⟨c, ⟨p, action⟩, ⟨s', Function.update c.procs p l'⟩⟩ p trade := by
    rintro ⟨payload, hevent, -⟩
    cases hevent
    obtain ⟨hidle, haccepted⟩ := deliver_idle hstep
    exact hbusy.elim (fun hne => hne hidle) fun hstays =>
      acceptMessage_ne_idle payload (haccepted.symm.trans hstays)
  generalize hl : c.procs p = l at heffect hfollows
  cases heffect with
  | accepted payload => exact processFollows_accepted hmapped hfollows
  | world => exact not_delivers_append hfollows (hnew (Or.inr rfl))
  | orders => exact not_delivers_append hfollows (hnew (Or.inr rfl))
  | stopped => trivial
  | message heffect =>
    refine processFollows_message hfollows (hnew (Or.inl (hl ▸ handling_ne_idle))) ?_
      (copySubscriptions_message heffect) heffect
    simp [handles]
  | worker hpoint hworker hreplicate =>
    refine ⟨hfollows.1.extend (hnew (Or.inl (hl ▸ handling_ne_idle))) rfl (List.Subset.refl _)
      fun _ htask => Or.inl htask, fun _ hmarked => ?_⟩
    cases hmarked

/-- What others do delivers nothing to a process. -/
theorem ProcessFollows.of_other (hfollows : ProcessFollows ts p l) (hne : p ≠ t.event.proc) :
    ProcessFollows (ts ++ [t]) p l := by
  have hnew (trade : TradeExecutedEvent) : ¬Delivers t p trade := by
    rintro ⟨payload, hevent, -⟩
    exact hne (by rw [hevent])
  cases l with
  | idle => exact not_delivers_append hfollows hnew
  | handling h =>
    exact ⟨hfollows.1.extend hnew rfl (List.Subset.refl _) fun _ htask => Or.inl htask, hfollows.2⟩
  | _ => trivial

theorem processFollows_next (hfollows : ∀ p, ProcessFollows ts p (c.procs p))
    (hmapped : MastersMapped c e) (hnext : replicationSystem.next c e = some d) (p : ℕ) :
    ProcessFollows (ts ++ [⟨c, e, d⟩]) p (d.procs p) := by
  obtain ⟨s', l', hstep, rfl⟩ := System.next_eq_some.mp hnext
  by_cases hp : p = e.proc
  · subst hp
    simpa using processFollows_own hmapped (hfollows e.proc) hstep
  · simpa only [Function.update_of_ne hp] using (hfollows p).of_other hp

/-- In a run in which no subscriber is passed over, none is lost. -/
theorem none_lost (es : List (Event Action)) (d : CopyConfig)
    (h : replicationSystem.Run NonePassedOver initial es d) :
    NoneLost (replicationSystem.transitions initial es) d := by
  have hcover : AllCover d :=
    h.invariant allCover_initial fun _ _ _ hc hguard hnext => allCover_next hc hguard.1 hnext
  have hfollows := h.trace_invariant (I := fun ts c => ∀ p, ProcessFollows ts p (c.procs p))
    (fun _ _ ht => absurd ht List.not_mem_nil)
    fun _ _ _ _ hfollows hguard hnext => processFollows_next hfollows hguard.2 hnext
  refine ⟨fun p h acknowledged hp hmarked subscriber hsub => hcover.hasOneRow hp hmarked hsub,
    fun p h acknowledged hp hmarked t ht trade hdelivers master hmaster hactive hside => ?_⟩
  have hprocess := hfollows p
  rw [hp] at hprocess
  obtain ⟨hsides, hdone⟩ := hprocess
  obtain ⟨rfl, hmasters⟩ := hsides t ht trade hdelivers
  rcases hmasters master hmaster hactive hside with ⟨task, htask, -⟩ | hheld
  · rw [hdone acknowledged hmarked] at htask
    cases htask
  · exact hheld.mono (List.Subset.refl _) fun _ hsub => hcover.hasOneRow hp hmarked hsub

/-! ### Runs of one subscriber -/

/-- What a worker does, checked on one transition. -/
def givesUpCovered (t : CopyTransition) : Bool :=
  match t.event.action with
  | .worker i workerAction =>
    match workerOf (t.before.procs t.event.proc) i with
    | some (task, worker) =>
      !givesUp t.before.shared worker.subscriber worker.progress workerAction ||
        (lookup CopyOrderHistory.copy t.before.shared.db.copyOrdersHistory
          (worker.subscriber.id, task.tradeId)).isSome
    | none => true
  | _ => true

theorem givesUpCovered_spec (h : givesUpCovered t = true) : GivesUpCovered t.before t.event := by
  intro i workerAction task worker haction hworker hgives
  simp only [givesUpCovered, haction, hworker, hgives, Bool.not_true, Bool.false_or] at h
  obtain ⟨row, hrow⟩ := Option.isSome_iff_exists.mp h
  exact ⟨row, lookup_mem hrow⟩

/-- What a message finds in the map, checked on one transition. -/
def mastersMapped (t : CopyTransition) : Bool :=
  match t.event.action with
  | .deliver payload => (carriedTrade payload).all fun trade =>
    sideTasks t.before.shared trade = [] || t.before.shared.masters.all fun master =>
      !master.isActive || !decide (OnSide trade master) ||
        t.before.shared.db.findActiveByMaster master.id = [] ||
          t.before.shared.activeMasters master.userId = some master.id
  | _ => true

theorem mastersMapped_spec (h : mastersMapped t = true) : MastersMapped t.before t.event := by
  intro payload trade haction hcarried htasks master hmaster hactive hside hsome
  simp only [mastersMapped, haction, hcarried, Option.all_some, Bool.or_eq_true, decide_eq_true_eq,
    htasks, false_or, List.all_eq_true] at h
  simpa [hactive, hside, hsome] using h master hmaster

def nonePassedOver (t : CopyTransition) : Bool := givesUpCovered t && mastersMapped t

theorem nonePassedOver_spec (h : nonePassedOver t = true) : NonePassedOver t.before t.event := by
  obtain ⟨hgives, hmapped⟩ := Bool.and_eq_true_iff.mp h
  exact ⟨givesUpCovered_spec hgives, mastersMapped_spec hmapped⟩

/-- A process does one action after the other. -/
def perform (p : ℕ) (actions : List Action) : List (Event Action) :=
  actions.map fun action => ⟨p, action⟩

/-- The buyer is a master, and another user follows it. -/
def followed : List (Event Action) :=
  perform 9 [.createMaster ⟨"m", "master", 50 * 10 ^ 8, 0, true⟩,
    .activateMaster "master" (some "m"),
    .createSubscription ⟨"sub", "follower", "m", 100 * 10 ^ 8, 100, .active⟩]

/-- The master buys two units at a hundred. -/
def masterTrade (tradeId : Uuid) : TradeExecutedEvent where
  tradeId
  buyerUserId := "master"
  sellerUserId := "seller"
  symbol := ⟨.eth, .usdt⟩
  price := .finite 100
  quantity := .finite 2
  buyerLimitPrice := .finite 100

def tradeMessage (tradeId : Uuid) : KafkaBatchConsumerPayload where
  offset := "0"
  value := some ⟨tradeId, tradeExecuted, "matching.trade_executed", some (masterTrade tradeId)⟩
  actionHeader := ""

/-- A message up to its first batch. -/
def takeUp (p : ℕ) (tradeId : Uuid) (available : ℕ) : List (Event Action) :=
  perform p [.deliver (tradeMessage tradeId), .statement, .statement, .balance (.finite available)]

/-- Too little is left of the master's funds to copy it: the copy is skipped. -/
def skippedCopy : List (Event Action) :=
  followed ++ takeUp 0 "trade" 0 ++ perform 0 [.worker 0 (.acquire "token"), .worker 0 .statement,
    .worker 0 (.insert "row"), .worker 0 .statement, .heartbeat, .statement]

/-- What is in the history, and whether a process has marked its message. -/
def outcome (c : CopyConfig) (p : ℕ) : List (Uuid × CopyOrderStatus) × Bool :=
  (c.shared.db.copyOrdersHistory.map fun row => (row.subscriptionId, row.status),
    match c.procs p with
    | .handling h => h.point = .marked true
    | _ => false)

theorem skippedCopy_executes :
    (replicationSystem.exec initial skippedCopy).map (fun c => outcome c 0) =
        some ([("sub", .skipped)], true) ∧
      (replicationSystem.transitions initial skippedCopy).all nonePassedOver = true := by
  decide +kernel

theorem none_lost_skippedCopy : ∃ d, replicationSystem.exec initial skippedCopy = some d ∧
    outcome d 0 = ([("sub", .skipped)], true) ∧
      NoneLost (replicationSystem.transitions initial skippedCopy) d := by
  obtain ⟨d, hexec, houtcome⟩ := Option.map_eq_some_iff.mp skippedCopy_executes.1
  exact ⟨d, hexec, houtcome, none_lost skippedCopy d
    (.of_check hexec skippedCopy_executes.2 fun _ => nonePassedOver_spec)⟩

/-- A consumer stops while it holds the follower's lock, and the message is delivered again
before the lock expires. -/
def lockedOut : List (Event Action) :=
  followed ++ takeUp 0 "trade" 1000 ++ perform 0 [.worker 0 (.acquire "token"), .stop] ++
    takeUp 1 "trade" 1000 ++ perform 1 [.worker 0 (.acquire "other"), .heartbeat, .statement]

theorem lockedOut_executes : (replicationSystem.exec initial lockedOut).map
    (fun c => (c.shared.db.copyOrdersHistory, c.procs 1)) =
      some ([], .handling {
        envelope := ⟨"trade", tradeExecuted, "matching.trade_executed", some (masterTrade "trade")⟩
        trade := masterTrade "trade"
        tasks := []
        followed := [⟨"sub", "follower", "m", 100 * 10 ^ 8, 100, .active⟩]
        point := .marked true }) := by decide +kernel

/-- All the while that the second message is handled, the subscriber is active for the master
of its trade. -/
theorem lockedOut_active :
    ((replicationSystem.transitions initial lockedOut).any fun t =>
        t.event = ⟨1, .deliver (tradeMessage "trade")⟩ ∧
          t.before.shared.masters = [⟨"m", "master", 50 * 10 ^ 8, 0, true⟩]) = true ∧
      ((replicationSystem.transitions initial lockedOut).all fun t =>
        handles (t.after.procs 1) → t.after.shared.db.findActiveByMaster "m" ≠ []) = true := by
  decide +kernel

/-- The message is marked processed, and the subscriber has no row. -/
theorem lost_lockedOut : ¬∀ es d, replicationSystem.exec initial es = some d →
    NoneLost (replicationSystem.transitions initial es) d := by
  intro hall
  obtain ⟨d, hexec, hd⟩ := Option.map_eq_some_iff.mp lockedOut_executes
  obtain ⟨hhistory, hproc⟩ := Prod.mk.inj hd
  obtain ⟨hdelivered, halways⟩ := lockedOut_active
  obtain ⟨t, ht, hdelivery⟩ := List.any_eq_true.mp hdelivered
  obtain ⟨hevent, hmasters⟩ := of_decide_eq_true hdelivery
  obtain ⟨t', ht', hhandles, hrows⟩ := (hall lockedOut d hexec).active 1 _ true hproc rfl t ht
    (masterTrade "trade") ⟨_, hevent, rfl⟩ ⟨"m", "master", 50 * 10 ^ 8, 0, true⟩
    (hmasters ▸ List.mem_cons_self) rfl (Or.inl rfl)
  have hactive := of_decide_eq_true (List.all_eq_true.mp halways t' ht') hhandles
  obtain ⟨subscriber, hsub⟩ := List.exists_mem_of_ne_nil _ hactive
  obtain ⟨row, hrow, -⟩ := hrows subscriber hsub
  rw [hhistory] at hrow
  cases hrow

end EtherTrade.CopyCoverageLaws
