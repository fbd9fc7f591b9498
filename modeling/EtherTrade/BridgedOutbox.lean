import EtherTrade.OutboxOrderLaws

/-!
# A service, the relay of its events and the bridge behind it

The transactions of a service commit events, workers relay them to a topic of the broker, and a
bridge handles what has arrived there, any number of times and in any order. A process takes the
steps of a call of the service and those of a worker side by side.

Every event that is sent, and every message that is published, goes back to a row that a
transaction of the service has inserted.
-/

namespace EtherTrade.BridgedOutbox

open AccountsSchema KeyedRows InterleavedProcesses OutboxRelay OutboxOrderLaws

universe u

/-- A service, the events that its transactions have committed, in order, and the messages that
the bridge makes of one, given what else there is to its delivery. -/
structure Service (σ ℓ α π κ μ : Type u) where
  system : System σ ℓ α
  committed : σ → List π
  grows : ∀ p s l a s' l', system.step p s l a = some (s', l') → committed s <+: committed s'
  messages : κ → OutboxRow π → List μ

/-- The rows that were ever inserted, and the messages that were published, each with the row it
was made of. -/
structure Shared (σ π μ : Type u) where
  service : σ
  outbox : OutboxRelay.Shared π
  inserted : List (OutboxRow π)
  published : List (OutboxRow π × μ)

abbrev Process (ℓ π : Type u) := ℓ × OutboxRelay.Process π

/-- A call takes a step, and what it commits gets rows; a worker takes a step; or the bridge
handles a row that has arrived and is stopped after so many messages. -/
inductive Action (α π κ : Type u) where
  | serve (action : α) (rows : List (OutboxRow π))
  | relay (action : OutboxRelay.Action π)
  | handleMessage (row : OutboxRow π) (context : κ) (sent : ℕ)
  deriving DecidableEq

abbrev BridgedConfig (σ ℓ π μ : Type u) := Config (Shared σ π μ) (Process ℓ π)

/-- The row as it was inserted. -/
def asInserted {π : Type u} (row : OutboxRow π) : OutboxRow π := { row with status := .pending }

variable {σ ℓ α π κ μ : Type u} (S : Service σ ℓ α π κ μ)

/-- What a step of the service has committed. -/
def newEvents (before after : σ) : List π :=
  (S.committed after).drop (S.committed before).length

/-- The rows of new events, with ids that no row ever had. -/
def IsInsertion (s : Shared σ π μ) (service : σ) (rows : List (OutboxRow π)) : Prop :=
  rows.map OutboxRow.event = newEvents S s.service service ∧
    ∀ row ∈ rows, lookup OutboxRow.id s.inserted row.id = none

instance [DecidableEq π] (s : Shared σ π μ) (service : σ) (rows : List (OutboxRow π)) :
    Decidable (IsInsertion S s service rows) := inferInstanceAs (Decidable (_ ∧ _))

section System

variable [DecidableEq π] (p : ℕ) (s : Shared σ π μ) (l : Process ℓ π)

/-- A step of a call. -/
def serveStep (action : α) (rows : List (OutboxRow π)) : Option (Shared σ π μ × Process ℓ π) :=
  (S.system.step p s.service l.1 action).bind fun r =>
    if IsInsertion S s r.1 rows then
      (OutboxRelay.step p s.outbox .idle (.insertMany rows)).map fun o =>
        ({ s with service := r.1, outbox := o.1, inserted := s.inserted ++ rows }, (r.2, l.2))
    else none

/-- A worker inserts no events. -/
def relayStep : OutboxRelay.Action π → Option (Shared σ π μ × Process ℓ π)
  | .insertMany _ => none
  | action => (OutboxRelay.step p s.outbox l.2 action).map fun o =>
      ({ s with outbox := o.1 }, (l.1, o.2))

def step : Action α π κ → Option (Shared σ π μ × Process ℓ π)
  | .serve action rows => serveStep S p s l action rows
  | .relay action => relayStep p s l action
  | .handleMessage row context sent =>
    if row ∈ arrived s.outbox.store then
      some ({ s with
        published := s.published ++ ((S.messages context row).take sent).map fun m => (row, m) }, l)
    else none

def bridgedSystem : System (Shared σ π μ) (Process ℓ π) (Action α π κ) := ⟨step S⟩

end System

/-- An empty outbox beside a service, and no worker under way. -/
def initial (c : Config σ ℓ) : BridgedConfig σ ℓ π μ :=
  ⟨⟨c.shared, OutboxRelay.initial.shared, [], []⟩, fun p => (c.procs p, .idle)⟩

variable {S} {p : ℕ} {s s' : Shared σ π μ} {l l' : Process ℓ π} {action : Action α π κ}
  {r : OutboxRow π} {rows : List (OutboxRow π)} {c d : BridgedConfig σ ℓ π μ}
  {e : Event (Action α π κ)} {es : List (Event (Action α π κ))}

/-- The service and its calls. -/
def serviceConfig (c : BridgedConfig σ ℓ π μ) : Config σ ℓ :=
  ⟨c.shared.service, fun p => (c.procs p).1⟩

/-! ### Steps -/

/-- What a step leads to, one case for each. -/
inductive Step [DecidableEq π] (S : Service σ ℓ α π κ μ) (p : ℕ) (s : Shared σ π μ) :
    Process ℓ π → Action α π κ → Shared σ π μ → Process ℓ π → Prop
  | served {call call' : ℓ} {worker : OutboxRelay.Process π} {action : α} {service : σ}
      {rows : List (OutboxRow π)} (hstep : S.system.step p s.service call action =
        some (service, call')) (hrows : IsInsertion S s service rows)
      (hids : (rows.map OutboxRow.id).Nodup) (hpending : ∀ r ∈ rows, r.status = .pending) :
      Step S p s (call, worker) (.serve action rows)
        { service, outbox := ⟨{ s.outbox.store with rows := s.outbox.store.rows ++ rows },
            s.outbox.locks⟩, inserted := s.inserted ++ rows, published := s.published }
        (call', worker)
  | relayed {call : ℓ} {worker worker' : OutboxRelay.Process π} {action : OutboxRelay.Action π}
      {outbox : OutboxRelay.Shared π} (hinsert : ∀ rows, action ≠ .insertMany rows)
      (hstep : OutboxRelay.step p s.outbox worker action = some (outbox, worker')) :
      Step S p s (call, worker) (.relay action) { s with outbox } (call, worker')
  | handled {l : Process ℓ π} {row : OutboxRow π} {context : κ} {sent : ℕ}
      (hrow : row ∈ arrived s.outbox.store) : Step S p s l (.handleMessage row context sent)
        { s with published :=
            s.published ++ ((S.messages context row).take sent).map fun m => (row, m) } l

variable [DecidableEq π]

private theorem insertMany_cases {outbox outbox' : OutboxRelay.Shared π}
    {worker : OutboxRelay.Process π}
    (h : OutboxRelay.step p outbox .idle (.insertMany rows) = some (outbox', worker)) :
    (rows.map OutboxRow.id).Nodup ∧ (∀ r ∈ rows, r.status = .pending) ∧
      outbox' = ⟨{ outbox.store with rows := outbox.store.rows ++ rows }, outbox.locks⟩ := by
  cases OutboxRelayLaws.step_effect h with
  | insertMany _ hids hnew => exact ⟨hids, fun r hr => (hnew r hr).1, rfl⟩

theorem step_cases (h : step S p s l action = some (s', l')) : Step S p s l action s' l' := by
  cases action with
  | serve action rows =>
    obtain ⟨⟨service, call'⟩, hstep, h⟩ := Option.bind_eq_some_iff.mp h
    dsimp only at h
    split at h
    · next hrows =>
      obtain ⟨⟨outbox, worker⟩, hinsert, heq⟩ := Option.map_eq_some_iff.mp h
      obtain ⟨hids, hpending, rfl⟩ := insertMany_cases hinsert
      cases heq
      exact .served hstep hrows hids hpending
    · cases h
  | relay action =>
    simp only [step, relayStep] at h
    split at h
    · cases h
    · next hinsert =>
      obtain ⟨⟨outbox, worker⟩, hstep, heq⟩ := Option.map_eq_some_iff.mp h
      cases heq
      exact .relayed (fun rows heq => hinsert rows heq) hstep
  | handleMessage row context sent =>
    simp only [step] at h
    split at h
    · next hrow =>
      cases h
      exact .handled hrow
    · cases h

theorem next_cases (h : (bridgedSystem S).next c e = some d) :
    ∃ s' l', Step S e.proc c.shared (c.procs e.proc) e.action s' l' ∧
      d = ⟨s', Function.update c.procs e.proc l'⟩ := by
  obtain ⟨s', l', hs, rfl⟩ := System.next_eq_some.mp h
  exact ⟨s', l', step_cases hs, rfl⟩

/-! ### What goes back to a row -/

/-- The rows a worker is about to send, whatever became of its transaction. -/
def outgoing : OutboxRelay.Process π → List (OutboxRow π)
  | .relaying (.sending pendingEvents) _ => pendingEvents
  | _ => []

omit [DecidableEq π] in
/-- What is stored, sent or about to be sent has been inserted. -/
structure Carries (rows : List (OutboxRow π)) (outbox : OutboxRelay.Shared π)
    (workers : ℕ → OutboxRelay.Process π) : Prop where
  stored : ∀ r ∈ outbox.store.rows, asInserted r ∈ rows
  arrived : ∀ r ∈ arrived outbox.store, r ∈ rows
  outgoing : ∀ p, ∀ r ∈ outgoing (workers p), r ∈ rows

section Carries

variable {outbox outbox' : OutboxRelay.Shared π} {workers : ℕ → OutboxRelay.Process π}
  {worker : OutboxRelay.Process π} {relayed : OutboxRelay.Action π} {more : List (OutboxRow π)}

omit [DecidableEq π]

theorem asInserted_eq_self (h : r.status = .pending) : asInserted r = r := by
  rw [asInserted, ← h]

theorem Carries.insert (h : Carries rows outbox workers)
    (hpending : ∀ r ∈ more, r.status = .pending) : Carries (rows ++ more)
      ⟨{ outbox.store with rows := outbox.store.rows ++ more }, outbox.locks⟩ workers where
  stored r hr := by
    rcases List.mem_append.mp hr with hold | hnew
    · exact List.mem_append_left _ (h.stored r hold)
    · rw [asInserted_eq_self (hpending r hnew)]
      exact List.mem_append_right _ hnew
  arrived r hr := List.mem_append_left _ (h.arrived r hr)
  outgoing p r hr := List.mem_append_left _ (h.outgoing p r hr)

theorem stored_step (h : Carries rows outbox workers)
    (hstep : OutboxRelayLaws.Effect p outbox (workers p) relayed outbox' worker)
    (hinsert : ∀ events, relayed ≠ .insertMany events) :
    ∀ r ∈ outbox'.store.rows, asInserted r ∈ rows := by
  intro r hr
  generalize workers p = l at hstep
  cases hstep with
  | insertMany events => exact absurd rfl (hinsert events)
  | commit pendingEvents =>
    obtain ⟨before, hbefore, rfl⟩ := List.mem_map.mp hr
    have hsame : asInserted (if before.id ∈ pendingEvents.map OutboxRow.id then
        { before with status := .published } else before) = asInserted before := by
      split <;> rfl
    rw [hsame]
    exact h.stored before hbefore
  | delete => exact h.stored r (List.mem_filter.mp hr).1
  | _ => exact h.stored r hr

theorem arrived_step (h : Carries rows outbox workers)
    (hstep : OutboxRelayLaws.Effect p outbox (workers p) relayed outbox' worker) :
    ∀ r ∈ OutboxOrderLaws.arrived outbox'.store, r ∈ rows := by
  intro r hr
  generalize hworker : workers p = l at hstep
  have hout := h.outgoing p
  rw [hworker] at hout
  cases hstep with
  | send pendingEvents connected delivery hack hevents =>
    rw [arrived_record, hevents] at hr
    exact (List.mem_append.mp hr).elim (h.arrived r) (hout r)
  | sendFails pendingEvents connected delivery hack hevents =>
    rw [arrived_record] at hr
    exact (List.mem_append.mp hr).elim (h.arrived r) fun hr => hout r (hevents.subset hr)
  | _ => exact h.arrived r hr

theorem outgoing_step (h : Carries rows outbox workers)
    (hstep : OutboxRelayLaws.Effect p outbox (workers p) relayed outbox' worker) :
    ∀ r ∈ BridgedOutbox.outgoing worker, r ∈ rows := by
  intro r hr
  generalize hworker : workers p = l at hstep
  have hout := h.outgoing p
  rw [hworker] at hout
  cases hstep with
  | fetch pendingEvents hbatch =>
    obtain ⟨hmem, hpending, -⟩ := OutboxRelayLaws.mem_fetchable.mp (hbatch.1 r hr)
    rw [← asInserted_eq_self hpending]
    exact h.stored r hmem
  | disconnect phase => cases phase <;> exact hout r hr
  | delete _ _ _ _ hidle => rcases hidle with rfl | rfl <;> cases hr
  | _ => cases hr

theorem Carries.relay (h : Carries rows outbox workers)
    (hstep : OutboxRelayLaws.Effect p outbox (workers p) relayed outbox' worker)
    (hinsert : ∀ events, relayed ≠ .insertMany events) :
    Carries rows outbox' (Function.update workers p worker) where
  stored := stored_step h hstep hinsert
  arrived := arrived_step h hstep
  outgoing q r hr := by
    by_cases hq : q = p
    · subst hq
      rw [Function.update_self] at hr
      exact outgoing_step h hstep r hr
    · rw [Function.update_of_ne hq] at hr
      exact h.outgoing q r hr

end Carries

/-- What the records say: the rows are those of the committed events, and all that is published
was made of one of them. -/
structure Recorded (S : Service σ ℓ α π κ μ) (c : BridgedConfig σ ℓ π μ) : Prop where
  events : c.shared.inserted.map OutboxRow.event = S.committed c.shared.service
  ids : KeyUnique OutboxRow.id c.shared.inserted
  carries : Carries c.shared.inserted c.shared.outbox fun p => (c.procs p).2
  published : ∀ x ∈ c.shared.published, x.1 ∈ c.shared.inserted ∧
    ∃ context, x.2 ∈ S.messages context x.1

omit [DecidableEq π] in
theorem committed_append {before after : σ} {action : α} {call call' : ℓ}
    (h : S.system.step p before call action = some (after, call')) :
    S.committed after = S.committed before ++ newEvents S before after := by
  obtain ⟨events, hevents⟩ := S.grows _ _ _ _ _ _ h
  rw [newEvents, ← hevents, List.drop_left]

theorem Recorded.next (h : Recorded S c) (hnext : (bridgedSystem S).next c e = some d) :
    Recorded S d := by
  obtain ⟨s', l', hstep, rfl⟩ := next_cases hnext
  generalize hproc : c.procs e.proc = l at hstep
  generalize e.action = action at hstep
  have hworkers : (fun p => (Function.update c.procs e.proc l' p).2) =
      Function.update (fun p => (c.procs p).2) e.proc l'.2 :=
    funext fun q => Function.apply_update (fun _ => Prod.snd) c.procs e.proc l' q
  have hworker : (c.procs e.proc).2 = l.2 := congrArg Prod.snd hproc
  cases hstep with
  | @served call call' worker action service rows hserve hrows hids hpending =>
    refine ⟨?_, ?_, ?_, fun x hx => ?_⟩
    · change (c.shared.inserted ++ rows).map OutboxRow.event = _
      rw [List.map_append, h.events, hrows.1, committed_append hserve]
    · refine (List.map_append ▸ h.ids.append hids fun id hold hnew => ?_ :
        ((c.shared.inserted ++ rows).map OutboxRow.id).Nodup)
      obtain ⟨r, hr, rfl⟩ := List.mem_map.mp hnew
      obtain ⟨r', hr', hid⟩ := List.mem_map.mp hold
      exact lookup_eq_none.mp (hrows.2 r hr) r' hr' hid
    · dsimp only
      rw [hworkers, ← hworker, Function.update_eq_self]
      exact h.carries.insert hpending
    · exact (h.published x hx).imp_left (List.mem_append_left _)
  | relayed hinsert hrelay =>
    refine ⟨h.events, h.ids, ?_, h.published⟩
    dsimp only
    rw [hworkers]
    refine h.carries.relay ?_ hinsert
    rw [hworker]
    exact OutboxRelayLaws.step_effect hrelay
  | @handled _ row context sent hrow =>
    refine ⟨h.events, h.ids, ?_, fun x hx => ?_⟩
    · dsimp only
      rw [hworkers, ← hworker, Function.update_eq_self]
      exact h.carries
    · rcases List.mem_append.mp hx with hold | hnew
      · exact h.published x hold
      · obtain ⟨m, hm, rfl⟩ := List.mem_map.mp hnew
        exact ⟨h.carries.arrived row hrow, context, List.mem_of_mem_take hm⟩

omit [DecidableEq π] in
theorem recorded_initial {c : Config σ ℓ} (h : S.committed c.shared = []) :
    Recorded S (initial c) where
  events := h.symm
  ids := keyUnique_nil
  carries := ⟨fun _ hr => absurd hr List.not_mem_nil, fun _ hr => absurd hr List.not_mem_nil,
    fun _ _ hr => absurd hr List.not_mem_nil⟩
  published _ hx := absurd hx List.not_mem_nil

/-! ### The service by itself -/

/-- The service takes a step, or it stands still. -/
theorem serviceConfig_next (h : (bridgedSystem S).next c e = some d) :
    (∃ action rows, e.action = .serve action rows ∧
      S.system.next (serviceConfig c) ⟨e.proc, action⟩ = some (serviceConfig d)) ∨
    (∀ action rows, e.action ≠ .serve action rows) ∧ serviceConfig d = serviceConfig c := by
  obtain ⟨s', l', hstep, rfl⟩ := next_cases h
  have hcalls : (fun p => (Function.update c.procs e.proc l' p).1) =
      Function.update (fun p => (c.procs p).1) e.proc l'.1 :=
    funext fun q => Function.apply_update (fun _ => Prod.fst) c.procs e.proc l' q
  generalize hproc : c.procs e.proc = l at hstep
  have hcall : (c.procs e.proc).1 = l.1 := congrArg Prod.fst hproc
  generalize e.action = action at hstep
  have hsame (hl : l'.1 = l.1) : (fun p => (Function.update c.procs e.proc l' p).1) =
      fun p => (c.procs p).1 := by
    rw [hcalls, hl, ← hcall, Function.update_eq_self]
  cases hstep with
  | @served call call' worker action service rows hserve =>
    refine Or.inl ⟨action, rows, rfl, System.next_eq_some.mpr ⟨service, call', ?_, ?_⟩⟩
    · change S.system.step e.proc c.shared.service (c.procs e.proc).1 action = _
      rw [hcall, hserve]
    · rw [serviceConfig, hcalls]
      rfl
  | relayed =>
    refine Or.inr ⟨fun _ _ heq => (nomatch heq), ?_⟩
    rw [serviceConfig, hsame rfl]
    rfl
  | handled =>
    refine Or.inr ⟨fun _ _ heq => (nomatch heq), ?_⟩
    rw [serviceConfig, hsame rfl]
    rfl

/-- What every message meets when it is published, and what the service keeps, all published
messages meet. -/
theorem published_next {Q : σ → OutboxRow π × μ → Prop}
    (hnext : (bridgedSystem S).next c e = some d)
    (hc : ∀ x ∈ c.shared.published, Q c.shared.service x)
    (hkeeps : ∀ x, Q c.shared.service x → Q d.shared.service x)
    (hhandled : ∀ row context sent, e.action = .handleMessage row context sent →
      row ∈ arrived c.shared.outbox.store → ∀ m ∈ (S.messages context row).take sent,
        Q c.shared.service (row, m)) : ∀ x ∈ d.shared.published, Q d.shared.service x := by
  obtain ⟨s', l', hstep, rfl⟩ := next_cases hnext
  intro x hx
  generalize c.procs e.proc = l at hstep
  generalize haction : e.action = action at hstep
  cases hstep with
  | served => exact hkeeps x (hc x hx)
  | relayed => exact hkeeps x (hc x hx)
  | @handled _ row context sent hrow =>
    rcases List.mem_append.mp hx with hold | hnew
    · exact hc x hold
    · obtain ⟨m, hm, rfl⟩ := List.mem_map.mp hnew
      exact hhandled row context sent haction hrow m hm

end EtherTrade.BridgedOutbox
