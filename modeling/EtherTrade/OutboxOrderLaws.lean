import EtherTrade.OutboxRelayLaws

/-!
# Events sent in the order of their numbers

Some events of an outbox carry a number. They are sent in increasing order in every run in
which they are committed so, by transactions that begin so; rows of one time are fetched in
their order; no numbered row is fetched while another worker holds one; and what has been
sent is marked.
-/

namespace EtherTrade.OutboxOrderLaws

open AccountsSchema KeyedRows InterleavedProcesses ResourceLocks OutboxRelay OutboxRelayLaws

universe u

variable {π : Type u} (number : π → Option ℕ)

/-- The numbers of two events, if they have them, are in order. -/
def Before (r r' : OutboxRow π) : Prop := ∀ m ∈ number r.event, ∀ n ∈ number r'.event, m < n

instance (r r' : OutboxRow π) : Decidable (Before number r r') :=
  inferInstanceAs (Decidable (∀ m ∈ number r.event, ∀ n ∈ number r'.event, m < n))

def Numbered (r : OutboxRow π) : Prop := (number r.event).isSome

instance (r : OutboxRow π) : Decidable (Numbered number r) :=
  inferInstanceAs (Decidable (_ = true))

/-- All that has arrived at the broker, in order. -/
def arrived (s : OutboxStore π) : List (OutboxRow π) := s.deliveries.flatMap Delivery.events

/-- The rows a worker with a transaction is about to send. -/
def toSend : Process π → List (OutboxRow π)
  | .relaying (.sending pendingEvents) true => pendingEvents
  | _ => []

/-- The rows a worker with a transaction has sent and not marked. -/
def inDoubt : Process π → List (OutboxRow π)
  | .relaying (.marking pendingEvents) true => pendingEvents
  | .relaying (.committing pendingEvents) true => pendingEvents
  | _ => []

/-- The numbers of two events, and the times of their transactions, are in order. -/
def InStep (r r' : OutboxRow π) : Prop := Before number r r' ∧ r.createdAt ≤ r'.createdAt

instance (r r' : OutboxRow π) : Decidable (InStep number r r') :=
  inferInstanceAs (Decidable (_ ∧ _))

/-- A new event comes after all that workers hold and all that has arrived, and the times of
pending events are in the order of their numbers. -/
def ComesInOrder (s : Shared π) (r' : OutboxRow π) : Prop :=
  Numbered number r' →
    (∀ r ∈ s.store.rows, r.status = .pending → Numbered number r →
      (s.locks r.id ≠ none → Before number r r') ∧ (InStep number r r' ∨ InStep number r' r)) ∧
    ∀ r ∈ arrived s.store, Before number r r'

instance (s : Shared π) (r' : OutboxRow π) : Decidable (ComesInOrder number s r') :=
  inferInstanceAs (Decidable (_ → _))

def InsertsInOrder (s : Shared π) (events : List (OutboxRow π)) : Prop :=
  events.Pairwise (InStep number) ∧ ∀ r' ∈ events, ComesInOrder number s r'

instance (s : Shared π) (events : List (OutboxRow π)) :
    Decidable (InsertsInOrder number s events) :=
  inferInstanceAs (Decidable (_ ∧ _))

/-- No numbered row is locked by another worker, and of rows of one time the earlier ones
are fetched before the later ones. -/
def FetchesInOrder (s : Shared π) (pendingEvents : List (OutboxRow π)) : Prop :=
  (∃ r ∈ pendingEvents, Numbered number r) →
    (∀ r ∈ s.store.rows, r.status = .pending → Numbered number r → s.locks r.id = none) ∧
    pendingEvents.Pairwise
      (fun r r' => r.createdAt = r'.createdAt → Numbered number r → Numbered number r' →
        Before number r r') ∧
    ∀ r ∈ pendingEvents, ∀ r' ∈ s.store.rows, r'.status = .pending → r' ∉ pendingEvents →
      r.createdAt = r'.createdAt → Numbered number r → Numbered number r' → Before number r r'

instance [DecidableEq π] (s : Shared π) (pendingEvents : List (OutboxRow π)) :
    Decidable (FetchesInOrder number s pendingEvents) :=
  inferInstanceAs (Decidable (_ → _))

/-- The rows that a step inserts. -/
def inserted : Process π → Action π → List (OutboxRow π)
  | .idle, .insertMany events => events
  | _, _ => []

/-- The rows that a step fetches. -/
def fetchedBy : Process π → Action π → List (OutboxRow π)
  | .relaying .fetching true, .fetchPendingBatch pendingEvents => pendingEvents
  | _, _ => []

/-- What arrives by a step whose worker is not going to mark it: the call has failed, or the
transaction is gone. -/
def unreliable : Process π → Action π → List (OutboxRow π)
  | .relaying (.sending _) connected, .sendBatch delivery =>
    if connected && delivery.acknowledged then [] else delivery.events
  | _, _ => []

/-- What a step leaves sent and unmarked. -/
def abandoned : Process π → Action π → List (OutboxRow π)
  | .relaying phase true, .abort => sentBy phase
  | .relaying phase true, .disconnect => sentBy phase
  | _, _ => []

/-- The condition on a step under which numbered events are sent in order. -/
def KeepsOrder (s : Shared π) (l : Process π) (action : Action π) : Prop :=
  InsertsInOrder number s (inserted l action) ∧ FetchesInOrder number s (fetchedBy l action) ∧
    (∀ r ∈ unreliable l action, ¬Numbered number r) ∧
      ∀ r ∈ abandoned l action, ¬Numbered number r

instance [DecidableEq π] (s : Shared π) (l : Process π) (action : Action π) :
    Decidable (KeepsOrder number s l action) :=
  inferInstanceAs (Decidable (_ ∧ _ ∧ _ ∧ _))

variable {number} {p q : ℕ} {s s' : Shared π} {l l' : Process π} {action : Action π}
  {r r' : OutboxRow π} {pendingEvents rows : List (OutboxRow π)} {c d : RelayConfig π}
  {e : Event (Action π)}

/-! ### Numbers in order -/

theorem rel_or_rel {α : Type u} {R : α → α → Prop} {l : List α} {a b : α} (h : l.Pairwise R)
    (ha : a ∈ l) (hb : b ∈ l) (hne : a ≠ b) : R a b ∨ R b a := by
  have hor : l.Pairwise fun x y => R x y ∨ R y x := h.imp Or.inl
  have hsymm : Std.Symm fun x y => R x y ∨ R y x := ⟨fun _ _ => Or.symm⟩
  exact hor.forall ha hb hne

theorem before_of_not_numbered (h : ¬Numbered number r) : Before number r r' := by
  intro m hm
  simp [Numbered, Option.mem_def.mp hm] at h

theorem before_of_not_numbered' (h : ¬Numbered number r') : Before number r r' := by
  intro m _ n hn
  simp [Numbered, Option.mem_def.mp hn] at h

theorem before_of_numbered (h : Numbered number r → Numbered number r' → Before number r r') :
    Before number r r' := by
  by_cases hr : Numbered number r
  · by_cases hr' : Numbered number r'
    · exact h hr hr'
    · exact before_of_not_numbered' hr'
  · exact before_of_not_numbered hr

theorem pairwise_before_of_not_numbered (h : ∀ r ∈ rows, ¬Numbered number r) :
    rows.Pairwise (Before number) :=
  List.pairwise_of_forall_mem_list fun r hr _ _ => before_of_not_numbered (h r hr)

/-- The numbers of rows in order increase. -/
theorem pairwise_numbers (h : rows.Pairwise (Before number)) :
    (rows.filterMap fun r => number r.event).Pairwise (· < ·) :=
  List.pairwise_filterMap.2 h

/-- The times of pending rows are in the order of their numbers. -/
def PendingInStep (number : π → Option ℕ) (rows : List (OutboxRow π)) : Prop :=
  rows.Pairwise fun r r' => r.status = .pending → r'.status = .pending →
    Numbered number r → Numbered number r' → InStep number r r' ∨ InStep number r' r

/-- A pending row of an earlier time comes before one of a later time. -/
theorem PendingInStep.before (h : PendingInStep number rows) (hr : r ∈ rows) (hr' : r' ∈ rows)
    (hold : r.status = .pending) (hnew : r'.status = .pending)
    (hlt : r.createdAt < r'.createdAt) : Before number r r' := by
  refine before_of_numbered fun hn hn' => ?_
  have hne : r ≠ r' := fun heq => hlt.ne (congrArg OutboxRow.createdAt heq)
  have hstep : InStep number r r' ∨ InStep number r' r := by
    rcases rel_or_rel h hr hr' hne with hbefore | hafter
    · exact hbefore hold hnew hn hn'
    · exact (hafter hnew hold hn' hn).symm
  rcases hstep with hbefore | hafter
  · exact hbefore.1
  · exact absurd hafter.2 (Nat.not_le.2 hlt)

/-- A batch to be sent is in order, and before every pending row that is not in it. -/
def BatchInOrder (number : π → Option ℕ) (rows batch : List (OutboxRow π)) : Prop :=
  batch.Pairwise (Before number) ∧
    ∀ r ∈ batch, ∀ r' ∈ rows, r'.status = .pending → r' ∉ batch → Before number r r'

/-- What has arrived is in order, and comes before all that is to be sent. -/
structure Ordered (number : π → Option ℕ) (c : RelayConfig π) : Prop where
  safe : Safe c
  rows : PendingInStep number c.shared.store.rows
  arrived : (arrived c.shared.store).Pairwise (Before number)
  later : ∀ r ∈ c.shared.store.rows, r.status = .pending → (∀ p, r ∉ inDoubt (c.procs p)) →
    ∀ r' ∈ OutboxOrderLaws.arrived c.shared.store, Before number r' r
  batches : ∀ p, BatchInOrder number c.shared.store.rows (toSend (c.procs p))

/-! ### Steps -/

theorem arrived_record {delivery : Delivery π} :
    arrived (record s delivery).store = arrived s.store ++ delivery.events := by
  simp [arrived, record]

/-- A pending row is an old one or has just been inserted. -/
theorem pending_step (h : Effect p s l action s' l') (hr : r ∈ s'.store.rows)
    (hpending : r.status = .pending) :
    r ∈ s.store.rows ∨ ∃ events, l = .idle ∧ action = .insertMany events ∧ r ∈ events := by
  cases h with
  | insertMany events =>
    exact (List.mem_append.1 hr).imp id fun hmem => ⟨events, rfl, rfl, hmem⟩
  | commit pendingEvents =>
    obtain ⟨r, hmem, rfl⟩ := List.mem_map.1 hr
    split at hpending
    · cases hpending
    · next hid =>
      rw [if_neg hid]
      exact .inl hmem
  | delete => exact .inl (List.mem_filter.1 hr).1
  | _ => exact .inl hr

theorem PendingInStep.step (hrows : PendingInStep number s.store.rows)
    (hguard : KeepsOrder number s l action) (h : Effect p s l action s' l') :
    PendingInStep number s'.store.rows := by
  cases h with
  | insertMany events =>
    refine List.pairwise_append.2 ⟨hrows, hguard.1.1.imp fun hr _ _ _ _ => .inl hr, ?_⟩
    exact fun r hr r' hr' hpending _ hn hn' => ((hguard.1.2 r' hr' hn').1 r hr hpending hn).2
  | commit pendingEvents =>
    refine List.pairwise_map.2 (hrows.imp fun {r r'} hr hold hnew => ?_)
    split at hold
    · cases hold
    · next hmarked =>
      split at hnew
      · cases hnew
      · next hmarked' =>
        rw [if_neg hmarked, if_neg hmarked']
        exact hr hold hnew
  | delete => exact hrows.sublist List.filter_sublist
  | _ => exact hrows

/-- The rows that a worker is about to send are stored, pending and locked. -/
theorem mem_toSend (hsafe : Safe c) (hr : r ∈ toSend (c.procs p)) :
    r ∈ c.shared.store.rows ∧ r.status = .pending ∧ c.shared.locks r.id = some p := by
  have hsecure := hsafe.secure p
  unfold toSend at hr
  split at hr
  · next hproc =>
    rw [hproc] at hsecure
    exact hsecure.1 r hr
  · cases hr

/-- No worker is in doubt about a row that another is about to send. -/
theorem not_mem_inDoubt (hsafe : Safe c) (hr : r ∈ toSend (c.procs p)) :
    r ∉ inDoubt (c.procs q) := by
  intro hdoubt
  have hlock : c.shared.locks r.id = some q := by
    have hsecure := hsafe.secure q
    unfold inDoubt at hdoubt
    split at hdoubt
    · next hproc =>
      rw [hproc] at hsecure
      exact (hsecure.1 r hdoubt).2.2
    · next hproc =>
      rw [hproc] at hsecure
      exact (hsecure.1 r hdoubt).2.2
    · cases hdoubt
  obtain rfl : p = q := Option.some.inj ((mem_toSend hsafe hr).2.2.symm.trans hlock)
  unfold toSend at hr
  split at hr
  · next hproc =>
    rw [hproc] at hdoubt
    cases hdoubt
  · cases hr

theorem inDoubt_connected {phase : Phase π} : inDoubt (.relaying phase true) = sentBy phase := by
  cases phase <;> rfl

theorem inDoubt_disconnected {phase : Phase π} : inDoubt (.relaying phase false) = [] := by
  cases phase <;> rfl

theorem keepsOrder_insertMany (h : InsertsInOrder number s rows) :
    KeepsOrder number s .idle (.insertMany rows) := by
  refine ⟨h, fun hnumbered => ?_, fun r hr => absurd hr List.not_mem_nil,
    fun r hr => absurd hr List.not_mem_nil⟩
  obtain ⟨r, hr, -⟩ := hnumbered
  exact absurd hr List.not_mem_nil

/-- Numbered rows are sent in a transaction, and the call succeeds. -/
theorem reliable_of_numbered {connected : Bool} {delivery : Delivery π}
    (hguard : KeepsOrder number s (.relaying (.sending pendingEvents) connected)
      (.sendBatch delivery)) (hr : r ∈ delivery.events) (hn : Numbered number r) :
    connected = true ∧ delivery.acknowledged = true := by
  have hunreliable := hguard.2.2.1
  simp only [unreliable] at hunreliable
  split at hunreliable
  · next hreliable => exact Bool.and_eq_true_iff.1 hreliable
  · exact absurd hn (hunreliable r hr)

/-- A batch that is fetched is in order. -/
theorem batchInOrder_of_fetch (hrows : PendingInStep number s.store.rows)
    (hbatch : IsPendingBatch s pendingEvents) (hguard : FetchesInOrder number s pendingEvents) :
    BatchInOrder number s.store.rows pendingEvents := by
  obtain ⟨hfetchable, hids, -, htimes, hrest⟩ := hbatch
  have hstored : ∀ r ∈ pendingEvents, r ∈ s.store.rows ∧ r.status = .pending := fun r hr =>
    (mem_fetchable.1 (hfetchable r hr)).imp_right And.left
  by_cases hnumbered : ∃ r ∈ pendingEvents, Numbered number r
  · obtain ⟨hfree, hties, hlaterTies⟩ := hguard hnumbered
    refine ⟨?_, fun r hr r' hr' hpending hout => ?_⟩
    · refine (List.Pairwise.and_mem.1 (htimes.and hties)).imp fun {r r'} h => ?_
      obtain ⟨hr, hr', htime, htie⟩ := h
      rcases Nat.lt_or_eq_of_le htime with hlt | heq
      · exact hrows.before (hstored r hr).1 (hstored r' hr').1 (hstored r hr).2 (hstored r' hr').2 hlt
      · exact before_of_numbered (htie heq)
    · refine before_of_numbered fun hold hnew => ?_
      have hmem : r' ∈ fetchable s := mem_fetchable.2 ⟨hr', hpending, hfree r' hr' hpending hnew⟩
      rcases Nat.lt_or_eq_of_le (hrest r hr r' hmem hout) with hlt | heq
      · exact hrows.before (hstored r hr).1 hr' (hstored r hr).2 hpending hlt
      · exact hlaterTies r hr r' hr' hpending hout heq hold hnew
  · have hnone : ∀ r ∈ pendingEvents, ¬Numbered number r := fun r hr h => hnumbered ⟨r, hr, h⟩
    exact ⟨pairwise_before_of_not_numbered hnone,
      fun r hr _ _ _ _ => before_of_not_numbered (hnone r hr)⟩

/-- A batch stays in order while other processes take steps. -/
theorem BatchInOrder.other (h : BatchInOrder number s.store.rows rows)
    (hrows : ∀ r ∈ rows, r ∈ s.store.rows ∧ r.status = .pending ∧ s.locks r.id = some q)
    (hguard : KeepsOrder number s l action)
    (heffect : Effect p s l action s' l') : BatchInOrder number s'.store.rows rows := by
  refine ⟨h.1, fun r hr r' hr' hpending hout => ?_⟩
  rcases pending_step heffect hr' hpending with hold | ⟨events, rfl, rfl, hmem⟩
  · exact h.2 r hr r' hold hpending hout
  · refine before_of_numbered fun hn hnew => ?_
    obtain ⟨hstored, hold, hlock⟩ := hrows r hr
    exact ((hguard.1.2 r' hmem hnew).1 r hstored hold hn).1 (by simp [hlock])

theorem BatchInOrder.own (hrows : PendingInStep number s.store.rows)
    (hguard : KeepsOrder number s l action) (h : Effect p s l action s' l') :
    BatchInOrder number s'.store.rows (toSend l') := by
  have hnil (rows : List (OutboxRow π)) : BatchInOrder number rows [] := ⟨.nil, nofun⟩
  cases h with
  | fetch pendingEvents hbatch =>
    have hfetched := batchInOrder_of_fetch hrows hbatch hguard.2.1
    exact hfetched
  | disconnect phase => cases phase <;> exact hnil _
  | delete _ _ _ _ hidle => rcases hidle with rfl | rfl <;> exact hnil _
  | _ => exact hnil _

/-- What arrives comes after what has arrived. -/
theorem Ordered.arrived_append (h : Ordered number c) {connected : Bool} {delivery : Delivery π}
    (hproc : c.procs p = .relaying (.sending pendingEvents) connected)
    (hevents : delivery.events.Sublist pendingEvents)
    (hguard : KeepsOrder number c.shared (.relaying (.sending pendingEvents) connected)
      (.sendBatch delivery)) :
    (OutboxOrderLaws.arrived c.shared.store ++ delivery.events).Pairwise (Before number) := by
  by_cases hnumbered : ∃ r ∈ delivery.events, Numbered number r
  · obtain ⟨r, hr, hn⟩ := hnumbered
    obtain ⟨rfl, -⟩ := reliable_of_numbered hguard hr hn
    have hbatch : toSend (c.procs p) = pendingEvents := by rw [hproc]; rfl
    have hpairwise := (h.batches p).1
    rw [hbatch] at hpairwise
    refine List.pairwise_append.2 ⟨h.arrived, hpairwise.sublist hevents, fun r' hr' r hr => ?_⟩
    have hsent : r ∈ toSend (c.procs p) := by
      rw [hbatch]
      exact hevents.subset hr
    obtain ⟨hrows, hpending, -⟩ := mem_toSend h.safe hsent
    exact h.later r hrows hpending (fun q => not_mem_inDoubt h.safe hsent) r' hr'
  · have hnone : ∀ r ∈ delivery.events, ¬Numbered number r := fun r hr hn => hnumbered ⟨r, hr, hn⟩
    exact List.pairwise_append.2 ⟨h.arrived, pairwise_before_of_not_numbered hnone,
      fun r' _ r hr => before_of_not_numbered' (hnone r hr)⟩

theorem Ordered.arrived_step (h : Ordered number c) (hproc : c.procs p = l)
    (hguard : KeepsOrder number c.shared l action) (heffect : Effect p c.shared l action s' l') :
    (OutboxOrderLaws.arrived s'.store).Pairwise (Before number) := by
  cases heffect with
  | send pendingEvents connected delivery hack hevents =>
    rw [arrived_record]
    exact h.arrived_append hproc (by rw [hevents]) hguard
  | sendFails pendingEvents connected delivery hack hevents =>
    rw [arrived_record]
    exact h.arrived_append hproc hevents hguard
  | _ => exact h.arrived

/-- What stays pending comes after what arrives. -/
theorem Ordered.later_step (h : Ordered number c) (hproc : c.procs p = l)
    (hguard : KeepsOrder number c.shared l action) (heffect : Effect p c.shared l action s' l')
    (hr : r ∈ s'.store.rows) (hpending : r.status = .pending) (hdoubt : r ∉ inDoubt l')
    (hothers : ∀ q, q ≠ p → r ∉ inDoubt (c.procs q))
    (hr' : r' ∈ OutboxOrderLaws.arrived s'.store) : Before number r' r := by
  rcases pending_step heffect hr hpending with hold | ⟨events, rfl, rfl, hmem⟩
  · have hlater (hnot : r ∉ inDoubt l) {r' : OutboxRow π}
        (hr' : r' ∈ OutboxOrderLaws.arrived c.shared.store) : Before number r' r := by
      refine h.later r hold hpending (fun q => ?_) r' hr'
      by_cases hq : q = p
      · rw [hq, hproc]
        exact hnot
      · exact hothers q hq
    have hlost {phase : Phase π} (hl : l = .relaying phase true)
        (hnone : ∀ r ∈ sentBy phase, ¬Numbered number r)
        (hr' : r' ∈ OutboxOrderLaws.arrived c.shared.store) : Before number r' r := by
      by_cases hsent : r ∈ sentBy phase
      · exact before_of_not_numbered' (hnone r hsent)
      · refine hlater ?_ hr'
        rw [hl, inDoubt_connected]
        exact hsent
    cases heffect with
    | send pendingEvents connected delivery hack hevents =>
      rw [arrived_record, List.mem_append] at hr'
      rcases hr' with hr' | hr'
      · exact hlater nofun hr'
      · refine before_of_numbered fun hn _ => ?_
        obtain ⟨rfl, -⟩ := reliable_of_numbered hguard hr' hn
        have hbatch := h.batches p
        rw [hproc] at hbatch
        rw [hevents] at hr'
        exact hbatch.2 r' hr' r hold hpending hdoubt
    | sendFails pendingEvents connected delivery hack hevents =>
      rw [arrived_record, List.mem_append] at hr'
      rcases hr' with hr' | hr'
      · exact hlater nofun hr'
      · refine before_of_not_numbered fun hn => ?_
        rw [(reliable_of_numbered hguard hr' hn).2] at hack
        cases hack
    | mark => exact hlater hdoubt hr'
    | commit pendingEvents =>
      refine hlater (fun hmem => ?_) hr'
      obtain ⟨r₀, -, rfl⟩ := List.mem_map.1 hr
      split at hpending
      · cases hpending
      · next hmarked =>
        rw [if_neg hmarked] at hmem
        exact hmarked (List.mem_map_of_mem hmem)
    | abort phase connected =>
      cases connected with
      | true => exact hlost rfl hguard.2.2.2 hr'
      | false => exact hlater (by rw [inDoubt_disconnected]; exact List.not_mem_nil) hr'
    | disconnect phase => exact hlost rfl hguard.2.2.2 hr'
    | _ => exact hlater nofun hr'
  · cases heffect with
    | insertMany => exact before_of_numbered fun _ hn => (hguard.1.2 r hmem hn).2 r' hr'

theorem Ordered.next [DecidableEq π] (h : Ordered number c)
    (hguard : KeepsOrder number c.shared (c.procs e.proc) e.action)
    (hnext : (relaySystem π).next c e = some d) : Ordered number d := by
  have hsafe := h.safe.next hnext
  obtain ⟨s', l', hstep, rfl⟩ := System.next_eq_some.1 hnext
  have heffect := step_effect hstep
  have hother (q : ℕ) (hq : q ≠ e.proc) : Function.update c.procs e.proc l' q = c.procs q :=
    Function.update_of_ne hq _ _
  have hown : Function.update c.procs e.proc l' e.proc = l' := Function.update_self _ _ _
  refine ⟨hsafe, h.rows.step hguard heffect, h.arrived_step rfl hguard heffect,
    fun r hr hpending hdoubt r' hr' => ?_, fun q => ?_⟩
  · refine h.later_step rfl hguard heffect hr hpending ?_ (fun q hq => ?_) hr'
    · simpa only [hown] using hdoubt e.proc
    · simpa only [hother q hq] using hdoubt q
  · by_cases hq : q = e.proc
    · rw [hq]
      simpa only [hown] using BatchInOrder.own h.rows hguard heffect
    · simpa only [hother q hq] using
        (h.batches q).other (fun r hr => mem_toSend h.safe hr) hguard heffect

theorem ordered_initial : Ordered number (initial : RelayConfig π) where
  safe := safe_initial
  rows := .nil
  arrived := .nil
  later := nofun
  batches _ := ⟨.nil, nofun⟩

end EtherTrade.OutboxOrderLaws
