import EtherTrade.OutboxRelayService

/-!
# Attempts that leave no trace

A batch whose send throws is recorded on its rows, and then the exception is thrown again out of
the transaction that has recorded it. What the rows hold of failed attempts after any sequence of
calls follows from that.
-/

namespace EtherTrade.OutboxRetryLaws

open KeyedRows AccountsSchema DatabaseTransactions OutboxRelayService

variable {π : Type} {relay : Relay π} {sendBatch : SendBatch π}
  {outbox outbox' : Outbox π} {pendingEvents : List (OutboxEvent π)} {action : Action π}
  {actions : List (Action π)} {event before after : OutboxEvent π} {message : String}

/-! ### One call -/

/-- The retries are recorded, and the exception rolls them back. -/
theorem processBatch_error (hevents : pendingEvents ≠ [])
    (h : sendBatch (pendingEvents.map relay.record) = .error message) :
    exec (processBatch relay sendBatch pendingEvents) outbox = (.error message, outbox) := by
  let publishedIds := pendingEvents.map OutboxEvent.id
  have hsend : exec (do
      MonadExcept.ofExcept (sendBatch (pendingEvents.map relay.record))
      markAsPublished publishedIds
      pure (pendingEvents.map relay.record).length) outbox = (.error message, outbox) := by
    rw [exec_bind, exec_ofExcept, h]
  have hrecord := exec_forM (fun id (outbox : Outbox π) =>
    (exec_modify : exec (recordRetryAttempt id message) outbox = _)) publishedIds outbox
  rw [processBatch, if_neg (by simpa using hevents)]
  exact transaction_error (rethrow_error hsend hrecord)

theorem processBatch_ok (hevents : pendingEvents ≠ [])
    (h : sendBatch (pendingEvents.map relay.record) = .ok ⟨⟩) :
    exec (processBatch relay sendBatch pendingEvents) outbox =
      (.ok pendingEvents.length,
        update outbox (pendingEvents.map OutboxEvent.id) OutboxEvent.publish) := by
  rw [processBatch, if_neg (by simpa using hevents)]
  refine transaction_ok ?_
  have hmarked : exec (markAsPublished (pendingEvents.map OutboxEvent.id)) outbox =
      (.ok ⟨⟩, update outbox (pendingEvents.map OutboxEvent.id) OutboxEvent.publish) := exec_modify
  rw [exec_tryCatch, exec_bind, exec_ofExcept, h]
  simp only [exec_bind, hmarked, exec_pure, List.length_map]

/-! ### Rows -/

theorem lookup_update {ids : List Uuid} {id : Uuid} (set : OutboxEvent π → OutboxEvent π)
    (hset : ∀ event, (set event).id = event.id) :
    lookup OutboxEvent.id (update outbox ids set) id =
      (lookup OutboxEvent.id outbox id).map fun event =>
        if event.id ∈ ids then set event else event := by
  refine lookup_map fun event _ => ?_
  split
  · exact hset event
  · rfl

theorem keyUnique_update {ids : List Uuid} {set : OutboxEvent π → OutboxEvent π}
    (hset : ∀ event, (set event).id = event.id) (hunique : KeyUnique OutboxEvent.id outbox) :
    KeyUnique OutboxEvent.id (update outbox ids set) := by
  refine keyUnique_map hunique fun event _ => ?_
  split
  · exact hset event
  · rfl

/-! ### Runs -/

/-- The message with which the call fails for the event: its send throws, and the event is in its
batch. -/
def failure (relay : Relay π) (id : Uuid) : Action π → Option String
  | .insertMany _ => none
  | .processBatch pendingEvents sendBatch =>
    if id ∈ pendingEvents.map OutboxEvent.id then
      match sendBatch (pendingEvents.map relay.record) with
      | .ok _ => none
      | .error message => some message
    else none

/-- The messages of the failed sends of the event, in their order. -/
def failures (relay : Relay π) (actions : List (Action π)) (id : Uuid) : List String :=
  actions.filterMap (failure relay id)

/-- The row has been counted up for each failed send of its event, and has the message of the last
one. -/
structure RetriesRecorded (relay : Relay π) (actions : List (Action π))
    (before after : OutboxEvent π) : Prop where
  retryCount : after.retryCount = before.retryCount + (failures relay actions before.id).length
  lastError : ∀ message, (failures relay actions before.id).getLast? = some message →
    after.lastError = some message

/-- The row has the same record of retries. -/
def SameRetries (before after : OutboxEvent π) : Prop :=
  after.retryCount = before.retryCount ∧ after.lastError = before.lastError

/-- A call marks rows, or it changes nothing. -/
theorem processBatch_cases (relay : Relay π) (sendBatch : SendBatch π)
    (pendingEvents : List (OutboxEvent π)) (outbox : Outbox π) :
    (exec (processBatch relay sendBatch pendingEvents) outbox).2 = outbox ∨
      (exec (processBatch relay sendBatch pendingEvents) outbox).2 =
        update outbox (pendingEvents.map OutboxEvent.id) OutboxEvent.publish := by
  by_cases hevents : pendingEvents = []
  · subst hevents
    exact Or.inl rfl
  · cases h : sendBatch (pendingEvents.map relay.record) with
    | ok _ => exact Or.inr (congrArg Prod.snd (processBatch_ok hevents h))
    | error message => exact Or.inl (congrArg Prod.snd (processBatch_error hevents h))

variable [DecidableEq π]

/-- No action leaves a trace of a failure. -/
theorem step_sameRetries (hunique : KeyUnique OutboxEvent.id outbox)
    (h : step relay outbox action = some outbox') : KeyUnique OutboxEvent.id outbox' ∧
      ∀ id before, lookup OutboxEvent.id outbox id = some before →
        ∃ after, lookup OutboxEvent.id outbox' id = some after ∧ SameRetries before after := by
  cases action with
  | insertMany events =>
    rw [step] at h
    split at h
    · next hnew =>
      cases h
      refine ⟨?_, fun id before hbefore => ⟨before, ?_, rfl, rfl⟩⟩
      · rw [KeyUnique, List.map_append]
        refine List.Nodup.append hunique hnew.1 fun id hold hmem => ?_
        obtain ⟨event, hevent, rfl⟩ := List.mem_map.mp hmem
        obtain ⟨row, hrow, hid⟩ := List.mem_map.mp hold
        exact lookup_eq_none.mp (Option.isNone_iff_eq_none.mp (hnew.2 event hevent).2) row hrow hid
      · rw [lookup, List.find?_append, ← lookup, hbefore, Option.some_or]
    · cases h
  | processBatch pendingEvents sendBatch =>
    rw [step] at h
    split at h
    · cases h
      rcases processBatch_cases relay sendBatch pendingEvents outbox with hkept | hmarked
      · rw [hkept]
        exact ⟨hunique, fun id before hbefore => ⟨before, hbefore, rfl, rfl⟩⟩
      · rw [hmarked]
        refine ⟨keyUnique_update (fun _ => rfl) hunique, fun id before hbefore =>
          ⟨_, (lookup_update OutboxEvent.publish fun _ => rfl).trans (congrArg _ hbefore), ?_⟩⟩
        dsimp only
        split <;> exact ⟨rfl, rfl⟩
    · cases h

theorem run_sameRetries (hunique : KeyUnique OutboxEvent.id outbox)
    (h : run relay outbox actions = some outbox') : ∀ id before,
      lookup OutboxEvent.id outbox id = some before →
        ∃ after, lookup OutboxEvent.id outbox' id = some after ∧ SameRetries before after := by
  induction actions generalizing outbox with
  | nil =>
    cases h
    exact fun id before hbefore => ⟨before, hbefore, rfl, rfl⟩
  | cons action actions ih =>
    obtain ⟨next, hstep, hrun⟩ := Option.bind_eq_some_iff.mp h
    obtain ⟨hnext, hkept⟩ := step_sameRetries hunique hstep
    intro id before hbefore
    obtain ⟨middle, hmiddle, hcount, herror⟩ := hkept id before hbefore
    obtain ⟨after, hafter, hcount', herror'⟩ := ih hnext hrun id middle hmiddle
    exact ⟨after, hafter, hcount'.trans hcount, herror'.trans herror⟩

/-- For every outbox and every sequence of calls and new events, what a row holds in the end has
the failed sends of its event if and only if there were none. -/
theorem retriesRecorded_iff (relay : Relay π) (outbox outbox' : Outbox π)
    (actions : List (Action π)) (hunique : KeyUnique OutboxEvent.id outbox)
    (h : run relay outbox actions = some outbox') : ∀ before ∈ outbox,
      ∃ after, lookup OutboxEvent.id outbox' before.id = some after ∧
        (RetriesRecorded relay actions before after ↔ failures relay actions before.id = []) := by
  intro before hbefore
  obtain ⟨after, hafter, hcount, -⟩ := run_sameRetries hunique h before.id before
    ((lookup_eq_some hunique).mpr ⟨hbefore, rfl⟩)
  refine ⟨after, hafter, fun hrecorded => ?_, fun hnone => ⟨?_, fun message hlast => ?_⟩⟩
  · have hfailures := hrecorded.retryCount
    rw [hcount] at hfailures
    exact List.length_eq_zero_iff.mp (by omega)
  · rw [hnone, hcount]
    rfl
  · rw [hnone] at hlast
    cases hlast

/-! ### One failure -/

/-- A relay of events without payloads. -/
def testRelay : Relay Unit := ⟨"test", fun _ => .null⟩

def orderPlaced : OutboxEvent Unit where
  id := "outbox-1"
  aggregateType := .order
  aggregateId := "order-123"
  partitionKey := "ETH_USDT"
  eventType := "order_placed"
  payload := ()
  status := .pending
  retryCount := 0
  lastError := none
  traceparent := none
  tracestate := none
  createdAt := 0

/-- The producer takes the records of one call. -/
def sent : Action Unit := .processBatch [orderPlaced] fun _ => .ok ⟨⟩

/-- The producer throws in one call. -/
def lost : Action Unit := .processBatch [orderPlaced] fun _ => .error "Kafka broker connection lost"

theorem retriesRecorded_sent : ∃ outbox', run testRelay [orderPlaced] [sent] = some outbox' ∧
    ∃ after, lookup OutboxEvent.id outbox' "outbox-1" = some after ∧
      RetriesRecorded testRelay [sent] orderPlaced after := by
  obtain ⟨after, hafter, hrecorded⟩ := retriesRecorded_iff testRelay [orderPlaced] _ [sent]
    (List.nodup_singleton _) rfl orderPlaced List.mem_cons_self
  exact ⟨_, rfl, after, hafter, hrecorded.mpr rfl⟩

/-- The send fails once before it succeeds, and the row has no retry. -/
theorem not_retriesRecorded_lost : ¬∀ (relay : Relay Unit) (outbox outbox' : Outbox Unit)
    (actions : List (Action Unit)), KeyUnique OutboxEvent.id outbox →
      run relay outbox actions = some outbox' → ∀ before ∈ outbox, ∀ after ∈ outbox',
        after.id = before.id → RetriesRecorded relay actions before after := by
  intro h
  have hrecorded := h testRelay [orderPlaced] [orderPlaced.publish]
    [lost, sent] (List.nodup_singleton _) (by decide +kernel) orderPlaced List.mem_cons_self _
    List.mem_cons_self rfl
  exact absurd hrecorded.retryCount (by decide +kernel)

end EtherTrade.OutboxRetryLaws
