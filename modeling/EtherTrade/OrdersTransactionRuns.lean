import EtherTrade.OrdersTransactionSteps

/-!
# Runs of the orders system

An invariant of the committed orders and of every call holds in each run whose updates
of makers meet a condition, once the steps of a call keep it and the steps of others
leave it.
-/

namespace EtherTrade.OrdersTransactionRuns

open KeyedRows AccountsSchema OrdersSchema OrderBook MatchingEngine
open InterleavedProcesses ResourceLocks OrdersTransactions OrdersTransactionInvariants
open OrdersTransactionSteps

variable {A : Condition} {p q : ℕ} {s s' : Shared} {l l' : Process} {action : Action}
  {c d : OrdersConfig} {e : Event Action} {es : List (Event Action)}

def Guard (A : Condition) (c : OrdersConfig) (e : Event Action) : Prop :=
  Meets A c.shared.store.db (c.procs e.proc) e.action

/-- A run, from any configuration, whose updates of makers meet the condition. -/
abbrev OrdersRun (A : Condition) (c : OrdersConfig) (es : List (Event Action))
    (d : OrdersConfig) : Prop := ordersSystem.Run (Guard A) c es d

/-- The condition, checked on one transition. -/
def meetsCondition (A : Condition) [∀ db w maker makerFilled, Decidable (A db w maker makerFilled)]
    (t : System.Transition Shared Process Action) : Bool :=
  match t.before.procs t.event.proc, t.event.action with
  | .creating _ (.placing _ (.active w (.updating maker makerFilled))), .trade _ =>
    decide (A t.before.shared.store.db w maker makerFilled)
  | _, _ => true

theorem guard_of_meetsCondition [∀ db w maker makerFilled, Decidable (A db w maker makerFilled)]
    {t : System.Transition Shared Process Action} (h : meetsCondition A t = true) :
    Guard A t.before t.event := by
  intro request recordId w maker makerFilled tradeId haction hproc
  rw [meetsCondition, haction, hproc] at h
  simpa using h

/-- An executed schedule whose transitions pass the check is a run. -/
theorem ordersRun_of_meetsCondition [∀ db w maker makerFilled, Decidable (A db w maker makerFilled)]
    (h : ordersSystem.exec c es = some d)
    (hall : (ordersSystem.transitions c es).all (meetsCondition A) = true) : OrdersRun A c es d :=
  .of_check h hall fun _ hcheck => guard_of_meetsCondition hcheck

/-- An invariant of the committed orders and of every call. -/
structure OrdersInvariant (I : OrdersDb → Prop) (J : OrdersDb → Process → Prop)
    (c : OrdersConfig) : Prop where
  unique : KeyUnique Order.id c.shared.store.db.orders
  processes : ∀ p, ProcessInvariant p c.shared (c.procs p)
  orders : I c.shared.store.db
  calls : ∀ p, J c.shared.store.db (c.procs p)

/-- Ids stay unique when the rows of each transaction have unique ids. -/
theorem keyUnique_processStep (hunique : KeyUnique Order.id s.store.db.orders)
    (hrows : ∀ request recordId w point,
      l = .creating request (.placing recordId (.active w point)) → KeyUnique Order.id w.rows)
    (h : ProcessStep p s l action s' l') : KeyUnique Order.id s'.store.db.orders := by
  cases h with
  | quiet horders => rwa [horders]
  | started => exact hunique
  | held => exact hunique
  | recorded => exact hunique
  | cancelled => exact keyUnique_merge hunique (List.nodup_singleton _)
  | placed hstep =>
    have hwritten := hrows _ _ _ _ rfl
    cases hstep with
    | quiet hdb => rwa [hdb]
    | committed => exact keyUnique_merge hunique hwritten
    | _ => exact hunique

theorem keyUnique_rows (hi : ProcessInvariant p s l) (request : ValidRequest) (recordId : Uuid)
    (w : UnitOfWork) (point : Point)
    (hl : l = .creating request (.placing recordId (.active w point))) :
    KeyUnique Order.id w.rows := by
  subst hl
  exact hi.1.unique

/-- What the steps of a call must keep and the steps of others must leave. -/
structure Preserved (A : Condition) (I : OrdersDb → Prop) (J : OrdersDb → Process → Prop) :
    Prop where
  committed : ∀ db w maker makerFilled, A db w maker makerFilled →
    MakerCommitted db w maker makerFilled
  own : ∀ p s l action s' l', I s.store.db → ProcessInvariant p s l → J s.store.db l →
    Meets A s.store.db l action → ProcessStep p s l action s' l' →
      I s'.store.db ∧ J s'.store.db l'
  others : ∀ q s s' l, ProcessInvariant q s l → Keeps view q s s' → J s.store.db l →
    J s'.store.db l

variable {I : OrdersDb → Prop} {J : OrdersDb → Process → Prop}

theorem Preserved.meets (h : Preserved A I J) {db : OrdersDb} (hA : Meets A db l action) :
    Meets MakerCommitted db l action :=
  fun request recordId w maker makerFilled tradeId haction hl =>
    h.committed _ _ _ _ (hA request recordId w maker makerFilled tradeId haction hl)

theorem ordersInvariant_next (hp : Preserved A I J) (hc : OrdersInvariant I J c)
    (hguard : Guard A c e) (h : ordersSystem.next c e = some d) : OrdersInvariant I J d := by
  obtain ⟨s, l, hs, rfl⟩ := System.next_eq_some.mp h
  have hstep : ProcessStep e.proc c.shared (c.procs e.proc) e.action s l := step_cases hs
  have hi := hc.processes e.proc
  have hkeeps (q : ℕ) (hq : q ≠ e.proc) : Keeps view q c.shared s :=
    processStep_keeps (commitsLocked_of_invariant hi) hstep (Ne.symm hq)
  obtain ⟨horders, hcall⟩ := hp.own _ _ _ _ _ _ hc.orders hi (hc.calls e.proc) hguard hstep
  refine ⟨keyUnique_processStep hc.unique (keyUnique_rows hi) hstep, fun q => ?_, horders, fun q => ?_⟩
  · by_cases hq : q = e.proc
    · subst hq
      simpa using processStep_own (hp.meets hguard) hi hstep
    · simpa [Function.update_of_ne hq] using processInvariant_keeps (hkeeps q hq) (hc.processes q)
  · by_cases hq : q = e.proc
    · subst hq
      simpa using hcall
    · simpa [Function.update_of_ne hq] using
        hp.others _ _ _ _ (hc.processes q) (hkeeps q hq) (hc.calls q)

theorem run_invariant (hp : Preserved A I J) (hc : OrdersInvariant I J c)
    (h : OrdersRun A c es d) : OrdersInvariant I J d :=
  h.invariant hc fun _ _ _ hc hguard hnext => ordersInvariant_next hp hc hguard hnext

theorem ordersInvariant_initial (hI : I .empty) (hJ : J .empty .idle) :
    OrdersInvariant I J initial :=
  ⟨keyUnique_nil, fun _ => trivial, hI, fun _ => hJ⟩

end EtherTrade.OrdersTransactionRuns
