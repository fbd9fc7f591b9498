import EtherTrade.OutboxRelay

/-!
# No event of the outbox is lost

However workers and retention passes run, fail and stop: an event that was committed is
stored and pending until a call of `sendBatch` with it has been acknowledged. Only rows of
acknowledged events are published, and only published rows are deleted.
-/

namespace EtherTrade.OutboxRelayLaws

open AccountsSchema KeyedRows InterleavedProcesses ResourceLocks OutboxRelay

universe u

variable {π : Type u} {p q : ℕ} {s s' : Shared π} {l l' : Process π}
  {action : Action π} {r r' : OutboxRow π} {pendingEvents rows : List (OutboxRow π)}
  {c d : RelayConfig π} {e : Event (Action π)} {es : List (Event (Action π))}

/-- A call of `sendBatch` with the row, as it was inserted, has been acknowledged. -/
def Sent (s : OutboxStore π) (r : OutboxRow π) : Prop :=
  ∃ delivery ∈ s.deliveries, delivery.acknowledged = true ∧
    { r with status := .pending } ∈ delivery.events

/-- The rows a worker has fetched. -/
def fetched : Phase π → List (OutboxRow π)
  | .sending pendingEvents | .marking pendingEvents | .committing pendingEvents => pendingEvents
  | .fetching | .recordingRetry _ => []

/-- The rows a worker has sent. -/
def sentBy : Phase π → List (OutboxRow π)
  | .marking pendingEvents | .committing pendingEvents => pendingEvents
  | _ => []

/-- What a process relies on: a worker that keeps its transaction holds the rows it has
fetched, and has sent what it is about to mark. -/
def Secure (s : Shared π) (p : ℕ) : Process π → Prop
  | .relaying phase true =>
    (∀ r ∈ fetched phase, r ∈ s.store.rows ∧ r.status = .pending ∧ s.locks r.id = some p) ∧
      ∀ r ∈ sentBy phase, Sent s.store r
  | _ => True

/-- Rows have ids of their own, and all but the pending ones have been sent. -/
structure Delivered (s : OutboxStore π) : Prop where
  keyUnique : KeyUnique OutboxRow.id s.rows
  sent : ∀ r ∈ s.rows, r.status ≠ .pending → r.status = .published ∧ Sent s r

structure Safe (c : RelayConfig π) : Prop where
  delivered : Delivered c.shared.store
  secure : ∀ p, Secure c.shared p (c.procs p)

/-- What a step can do, one case for each. -/
inductive Effect (p : ℕ) (s : Shared π) : Process π → Action π → Shared π → Process π → Prop where
  | insertMany (events : List (OutboxRow π)) (hids : (events.map OutboxRow.id).Nodup)
    (hnew : ∀ r ∈ events, r.status = .pending ∧ lookup OutboxRow.id s.store.rows r.id = none) :
    Effect p s .idle (.insertMany events)
      ⟨{ s.store with rows := s.store.rows ++ events }, s.locks⟩ .idle
  | processBatch : Effect p s .idle .processBatch s (.relaying .fetching true)
  | fetch (pendingEvents : List (OutboxRow π)) (hbatch : IsPendingBatch s pendingEvents) :
    Effect p s (.relaying .fetching true) (.fetchPendingBatch pendingEvents)
      ⟨s.store, lockRows p s pendingEvents⟩ (.relaying (.sending pendingEvents) true)
  | send (pendingEvents : List (OutboxRow π)) (connected : Bool)
    (delivery : Delivery π) (hack : delivery.acknowledged = true)
    (hevents : delivery.events = pendingEvents) :
    Effect p s (.relaying (.sending pendingEvents) connected) (.sendBatch delivery)
      (record s delivery) (.relaying (.marking pendingEvents) connected)
  | sendFails (pendingEvents : List (OutboxRow π)) (connected : Bool)
    (delivery : Delivery π) (hack : delivery.acknowledged = false)
    (hevents : delivery.events.Sublist pendingEvents) :
    Effect p s (.relaying (.sending pendingEvents) connected) (.sendBatch delivery)
      (record s delivery) (.relaying (.recordingRetry pendingEvents) connected)
  | mark (pendingEvents : List (OutboxRow π)) :
    Effect p s (.relaying (.marking pendingEvents) true) .statement s
      (.relaying (.committing pendingEvents) true)
  | retry (r : OutboxRow π) (rest : List (OutboxRow π)) :
    Effect p s (.relaying (.recordingRetry (r :: rest)) true) .statement s
      (.relaying (.recordingRetry rest) true)
  | commit (pendingEvents : List (OutboxRow π)) :
    Effect p s (.relaying (.committing pendingEvents) true) .statement
      (commit p s pendingEvents) .idle
  | fetchNothing : Effect p s (.relaying .fetching true) (.fetchPendingBatch []) (rollback p s) .idle
  | giveUp : Effect p s (.relaying (.recordingRetry []) true) .statement (rollback p s) .idle
  | abort (phase : Phase π) (connected : Bool) :
    Effect p s (.relaying phase connected) .abort (rollback p s) .idle
  | disconnect (phase : Phase π) :
    Effect p s (.relaying phase true) .disconnect (rollback p s) (.relaying phase false)
  | cleanPublishedEvents (now : ℕ) :
    Effect p s .idle (.cleanPublishedEvents now) s (.cleaning (now - retentionMs))
  | delete (cutoffDate : ℕ) (ids : List Uuid) (l' : Process π)
    (hexpired : IsExpiredBatch cutoffDate s.store.rows ids)
    (hidle : l' = .idle ∨ l' = .cleaning cutoffDate) :
    Effect p s (.cleaning cutoffDate) (.deletePublishedEventsOlderThan ids)
      ⟨{ s.store with rows := s.store.rows.filter fun r => r.id ∉ ids }, s.locks⟩ l'
  | stopCleaning (cutoffDate : ℕ) : Effect p s (.cleaning cutoffDate) .abort s .idle

theorem relayingStep_effect [DecidableEq π] {phase : Phase π} {connected : Bool}
    (h : relayingStep p s phase connected action = some (s', l')) :
    Effect p s (.relaying phase connected) action s' l' := by
  unfold relayingStep at h
  split at h
  · split at h
    · next hbatch =>
      split at h
      · next hnil =>
        obtain ⟨rfl, rfl⟩ := Prod.mk.inj (Option.some.inj h)
        rw [hnil]
        exact .fetchNothing
      · obtain ⟨rfl, rfl⟩ := Prod.mk.inj (Option.some.inj h)
        exact .fetch _ hbatch
    · cases h
  · split at h
    · next hack =>
      split at h
      · next hevents =>
        obtain ⟨rfl, rfl⟩ := Prod.mk.inj (Option.some.inj h)
        exact .send _ _ _ hack hevents
      · cases h
    · next hack =>
      split at h
      · next hevents =>
        obtain ⟨rfl, rfl⟩ := Prod.mk.inj (Option.some.inj h)
        exact .sendFails _ _ _ (by simpa using hack) hevents
      · cases h
  all_goals cases h
  · exact .mark _
  · exact .retry _ _
  · exact .giveUp
  · exact .commit _
  · exact .disconnect _
  · exact .abort _ _

theorem step_effect [DecidableEq π] (h : step p s l action = some (s', l')) : Effect p s l action s' l' := by
  unfold step at h
  split at h
  · split at h
    · next hnew =>
      obtain ⟨rfl, rfl⟩ := Prod.mk.inj (Option.some.inj h)
      exact .insertMany _ hnew.1 (by simpa using hnew.2)
    · cases h
  · obtain ⟨rfl, rfl⟩ := Prod.mk.inj (Option.some.inj h)
    exact .processBatch
  · obtain ⟨rfl, rfl⟩ := Prod.mk.inj (Option.some.inj h)
    exact .cleanPublishedEvents _
  · exact relayingStep_effect h
  · split at h
    · next hexpired =>
      obtain ⟨rfl, rfl⟩ := Prod.mk.inj (Option.some.inj h)
      exact .delete _ _ _ hexpired.1 (by split <;> simp)
    · cases h
  · obtain ⟨rfl, rfl⟩ := Prod.mk.inj (Option.some.inj h)
    exact .stopCleaning _
  · cases h

theorem Sent.mono {store store' : OutboxStore π} (h : Sent store r)
    (hsub : store.deliveries ⊆ store'.deliveries) : Sent store' r := by
  obtain ⟨delivery, hdelivery, hsent⟩ := h
  exact ⟨delivery, hsub hdelivery, hsent⟩

theorem deliveries_step (h : Effect p s l action s' l') :
    s.store.deliveries ⊆ s'.store.deliveries := by
  cases h <;> simp [rollback, commit, record]

/-- Fetched rows are locked by the worker that fetches them. -/
theorem lockRows_of_mem (hr : r ∈ pendingEvents) : lockRows p s pendingEvents r.id = some p := by
  rw [lockRows, LockTable.acquireAll_eq, if_pos (List.mem_map_of_mem hr)]

theorem mem_fetchable : r ∈ fetchable s ↔
    r ∈ s.store.rows ∧ r.status = .pending ∧ s.locks r.id = none := by
  simp [fetchable]

/-- Nothing is taken from another process. -/
theorem locks_step (hpq : p ≠ q) (h : Effect p s l action s' l') {id : Uuid}
    (hid : s.locks id = some q) : s'.locks id = some q := by
  cases h with
  | fetch pendingEvents hbatch =>
    have hnone : id ∉ pendingEvents.map OutboxRow.id := by
      intro hmem
      obtain ⟨r, hr, rfl⟩ := List.mem_map.1 hmem
      obtain ⟨-, -, hfree⟩ := mem_fetchable.1 (hbatch.1 r hr)
      rw [hid] at hfree
      cases hfree
    change lockRows p s pendingEvents id = _
    rw [lockRows, LockTable.acquireAll_eq, if_neg hnone, hid]
  | fetchNothing | giveUp | abort | disconnect | commit => exact LockTable.release_other hpq hid
  | _ => exact hid

/-- A pending row stays, unless the worker that commits has fetched it. -/
theorem mem_rows_step (hkeys : KeyUnique OutboxRow.id s.store.rows)
    (h : Effect p s l action s' l') (hr : r ∈ s.store.rows) (hpending : r.status = .pending)
    (hmarked : ∀ pendingEvents, l = .relaying (.committing pendingEvents) true →
      r.id ∉ pendingEvents.map OutboxRow.id) : r ∈ s'.store.rows := by
  cases h with
  | insertMany events => exact List.mem_append_left _ hr
  | commit pendingEvents =>
    refine List.mem_map.2 ⟨r, hr, ?_⟩
    rw [if_neg (hmarked pendingEvents rfl)]
  | delete cutoffDate ids l' hexpired =>
    refine List.mem_filter.2 ⟨hr, decide_eq_true fun hid => ?_⟩
    obtain ⟨r', hr', hid'⟩ := List.mem_map.1 (hexpired.2.1 r.id hid)
    obtain ⟨hr', hpublished⟩ := List.mem_filter.1 hr'
    obtain rfl := hkeys.eq hr' hr hid'
    simp [hpending] at hpublished
  | _ => exact hr

/-- A process keeps what it relies on while another one takes a step. -/
theorem Secure.other (hsecure : Secure s q l') (hkeys : KeyUnique OutboxRow.id s.store.rows)
    (hp : Secure s p l) (hpq : p ≠ q) {l₂ : Process π} (h : Effect p s l action s' l₂) :
    Secure s' q l' := by
  cases l' with
  | relaying phase connected =>
    cases connected with
    | true =>
      obtain ⟨hfetched, hsent⟩ := hsecure
      refine ⟨fun r hr => ?_, fun r hr => (hsent r hr).mono (deliveries_step h)⟩
      obtain ⟨hrows, hpending, hlock⟩ := hfetched r hr
      refine ⟨mem_rows_step hkeys h hrows hpending ?_, hpending, locks_step hpq h hlock⟩
      rintro pendingEvents rfl hmem
      obtain ⟨r', hr', hid⟩ := List.mem_map.1 hmem
      obtain ⟨-, -, hlock'⟩ := hp.1 r' hr'
      rw [hid, hlock] at hlock'
      exact hpq (Option.some.inj hlock').symm
    | false => trivial
  | _ => trivial

/-- A process relies on nothing that its own step does not provide. -/
theorem Secure.own (hsecure : Secure s p l) (h : Effect p s l action s' l') :
    Secure s' p l' := by
  cases h with
  | fetch pendingEvents hbatch =>
    refine ⟨fun r hr => ?_, nofun⟩
    obtain ⟨hrows, hpending, -⟩ := mem_fetchable.1 (hbatch.1 r hr)
    exact ⟨hrows, hpending, lockRows_of_mem hr⟩
  | send pendingEvents connected delivery hack hevents =>
    cases connected with
    | true =>
      refine ⟨hsecure.1, fun r hr => ⟨delivery, by simp [record], hack, ?_⟩⟩
      obtain ⟨-, hpending, -⟩ := hsecure.1 r hr
      rw [← hpending, hevents]
      exact hr
    | false => trivial
  | sendFails pendingEvents connected => cases connected <;> simp [Secure, fetched, sentBy]
  | mark => exact hsecure
  | processBatch | retry => simp [Secure, fetched, sentBy]
  | delete _ _ _ _ hidle => rcases hidle with rfl | rfl <;> trivial
  | _ => trivial

theorem keyUnique_step (hkeys : KeyUnique OutboxRow.id s.store.rows)
    (h : Effect p s l action s' l') : KeyUnique OutboxRow.id s'.store.rows := by
  cases h with
  | insertMany events hids hnew =>
    rw [KeyUnique, List.map_append]
    refine hkeys.append hids fun id hold hadded => ?_
    obtain ⟨r, hr, rfl⟩ := List.mem_map.1 hold
    obtain ⟨r', hr', hid⟩ := List.mem_map.1 hadded
    exact lookup_eq_none.1 (hnew r' hr').2 r hr hid.symm
  | commit pendingEvents =>
    exact keyUnique_map hkeys fun r _ => by split <;> rfl
  | delete => exact hkeys.sublist (List.filter_sublist.map _)
  | _ => exact hkeys

/-- Only a worker that commits publishes rows, and it has sent them. -/
theorem Delivered.step (hs : Delivered s.store) (hsecure : Secure s p l)
    (h : Effect p s l action s' l') : Delivered s'.store where
  keyUnique := keyUnique_step hs.keyUnique h
  sent r hr hstatus := by
    have hold : r ∈ s.store.rows → r.status = .published ∧ Sent s'.store r := fun hmem =>
      (hs.sent r hmem hstatus).imp_right fun hsent => hsent.mono (deliveries_step h)
    cases h with
    | insertMany events hids hnew =>
      rcases List.mem_append.1 hr with hmem | hmem
      · exact hold hmem
      · exact absurd (hnew r hmem).1 hstatus
    | commit pendingEvents =>
      obtain ⟨r, hmem, rfl⟩ := List.mem_map.1 hr
      by_cases hid : r.id ∈ pendingEvents.map OutboxRow.id
      · obtain ⟨r', hr', hid'⟩ := List.mem_map.1 hid
        obtain rfl := hs.keyUnique.eq (hsecure.1 r' hr').1 hmem hid'
        rw [if_pos hid]
        exact ⟨rfl, hsecure.2 r' hr'⟩
      · rw [if_neg hid] at hold ⊢
        exact hold hmem
    | delete => exact hold (List.mem_filter.1 hr).1
    | _ => exact hold hr

theorem Safe.next [DecidableEq π] (h : Safe c) (hnext : (relaySystem π).next c e = some d) :
    Safe d := by
  obtain ⟨s', l', hstep, rfl⟩ := System.next_eq_some.1 hnext
  have heffect := step_effect hstep
  refine ⟨h.delivered.step (h.secure e.proc) heffect, fun q => ?_⟩
  by_cases hq : q = e.proc
  · subst hq
    simpa using (h.secure e.proc).own heffect
  · have hother := (h.secure q).other h.delivered.keyUnique (h.secure e.proc) (Ne.symm hq) heffect
    simpa [Function.update_of_ne hq] using hother

theorem safe_initial : Safe (initial : RelayConfig π) where
  delivered := ⟨keyUnique_nil, nofun⟩
  secure _ := trivial

/-- A pending row is sent before it is pending no longer. -/
theorem stored_or_sent_step [DecidableEq π] (h : Safe c)
    (hnext : (relaySystem π).next c e = some d) (hpending : r.status = .pending)
    (hr : r ∈ c.shared.store.rows ∨ Sent c.shared.store r) :
    r ∈ d.shared.store.rows ∨ Sent d.shared.store r := by
  obtain ⟨s', l', hstep, rfl⟩ := System.next_eq_some.1 hnext
  have heffect := step_effect hstep
  rcases hr with hr | hsent
  · by_cases hmarked : ∃ pendingEvents,
        c.procs e.proc = .relaying (.committing pendingEvents) true ∧
          r.id ∈ pendingEvents.map OutboxRow.id
    · obtain ⟨pendingEvents, hproc, hid⟩ := hmarked
      obtain ⟨r', hr', hid'⟩ := List.mem_map.1 hid
      have hsecure := h.secure e.proc
      rw [hproc] at hsecure
      obtain rfl := h.delivered.keyUnique.eq (hsecure.1 r' hr').1 hr hid'
      exact .inr ((hsecure.2 r' hr').mono (deliveries_step heffect))
    · refine .inl (mem_rows_step h.delivered.keyUnique heffect hr hpending ?_)
      exact fun pendingEvents hproc hid => hmarked ⟨pendingEvents, hproc, hid⟩
  · exact .inr (hsent.mono (deliveries_step heffect))

section Runs

variable [DecidableEq π]

theorem safe_of_exec (h : (relaySystem π).exec initial es = some c) : Safe c :=
  System.exec_invariant h safe_initial fun _ _ _ => Safe.next

theorem inserted_of_next {events : List (OutboxRow π)} (h : (relaySystem π).next c e = some d)
    (haction : e.action = .insertMany events) (hr : r ∈ events) :
    r ∈ d.shared.store.rows ∧ r.status = .pending := by
  obtain ⟨s', l', hstep, rfl⟩ := System.next_eq_some.1 h
  rw [haction] at hstep
  generalize c.procs e.proc = l at hstep
  cases step_effect hstep with
  | insertMany events hids hnew => exact ⟨List.mem_append_right _ hr, (hnew r hr).1⟩

/-- A retention pass deletes published rows only. -/
theorem published_of_deleted {ids : List Uuid} (hkeys : KeyUnique OutboxRow.id c.shared.store.rows)
    (h : (relaySystem π).next c e = some d)
    (haction : e.action = .deletePublishedEventsOlderThan ids) (hr : r ∈ c.shared.store.rows)
    (hdeleted : r ∉ d.shared.store.rows) : r.status = .published := by
  obtain ⟨s', l', hstep, rfl⟩ := System.next_eq_some.1 h
  rw [haction] at hstep
  generalize c.procs e.proc = l at hstep
  cases step_effect hstep with
  | delete cutoffDate ids l' hexpired =>
    have hid : r.id ∈ ids := by
      by_contra hid
      exact hdeleted (List.mem_filter.2 ⟨hr, decide_eq_true hid⟩)
    obtain ⟨r', hr', hid'⟩ := List.mem_map.1 (hexpired.2.1 r.id hid)
    obtain ⟨hr', hpublished⟩ := List.mem_filter.1 hr'
    obtain rfl := hkeys.eq hr' hr hid'
    simp only [Bool.decide_and, Bool.and_eq_true, decide_eq_true_eq] at hpublished
    exact hpublished.1

/-- Every event that a run commits is stored as pending or has been sent, when the run ends
as at every moment before; what is published has been sent; and what a retention pass
deletes has been sent. -/
theorem pending_or_sent (h : (relaySystem π).exec initial es = some d) :
    (∀ t ∈ (relaySystem π).transitions initial es, ∀ events,
      t.event.action = .insertMany events → ∀ r ∈ events,
        r ∈ d.shared.store.rows ∧ r.status = .pending ∨ Sent d.shared.store r) ∧
    (∀ r ∈ d.shared.store.rows, r.status ≠ .pending →
      r.status = .published ∧ Sent d.shared.store r) ∧
    ∀ t ∈ (relaySystem π).transitions initial es, ∀ ids,
      t.event.action = .deletePublishedEventsOlderThan ids →
        ∀ r ∈ t.before.shared.store.rows, r ∉ t.after.shared.store.rows →
          Sent t.before.shared.store r := by
  refine ⟨fun t ht events haction r hr => ?_, (safe_of_exec h).delivered.sent,
    fun t ht ids haction r hr hdeleted => ?_⟩
  · obtain ⟨earlier, later, -, hearlier, hnext, hlater⟩ := System.exec_transition h ht
    have hsafe := (safe_of_exec hearlier).next hnext
    obtain ⟨hinserted, hpending⟩ := inserted_of_next hnext haction hr
    have hlast := System.exec_invariant
      (I := fun c => Safe c ∧ (r ∈ c.shared.store.rows ∨ Sent c.shared.store r))
      hlater ⟨hsafe, .inl hinserted⟩
      fun _ _ _ hI hnext => ⟨hI.1.next hnext, stored_or_sent_step hI.1 hnext hpending hI.2⟩
    exact hlast.2.imp_left fun hrows => ⟨hrows, hpending⟩
  · obtain ⟨earlier, later, -, hearlier, hnext, -⟩ := System.exec_transition h ht
    have hdelivered := (safe_of_exec hearlier).delivered
    have hpublished := published_of_deleted hdelivered.keyUnique hnext haction hr hdeleted
    exact (hdelivered.sent r hr (by simp [hpublished])).2

end Runs

def singleEvent : OutboxRow Unit := ⟨"event", (), .pending, 0⟩

/-- An event is committed, sent and marked. -/
def relayed : List (Event (Action Unit)) :=
  [⟨0, .insertMany [singleEvent]⟩, ⟨1, .processBatch⟩, ⟨1, .fetchPendingBatch [singleEvent]⟩,
    ⟨1, .sendBatch ⟨[singleEvent], true⟩⟩, ⟨1, .statement⟩, ⟨1, .statement⟩]

theorem relayed_executes : ((relaySystem Unit).exec initial relayed).isSome = true := by
  decide +kernel

theorem pending_or_sent_relayed :
    let store := (((relaySystem Unit).exec initial relayed).get relayed_executes).shared.store
    store.rows.map OutboxRow.status = [.published] ∧
      ∀ r ∈ store.rows, r.status ≠ .pending → r.status = .published ∧ Sent store r :=
  ⟨by decide +kernel, (pending_or_sent (Option.some_get _).symm).2.1⟩

end EtherTrade.OutboxRelayLaws
