import EtherTrade.MasterBalances
import EtherTrade.MasterTradeReplicationSteps

/-!
# The steps of the exchange around replication

What one step of the whole system is to replication: a step of its own, the read of a balance,
or nothing.
-/

namespace EtherTrade.MasterBalanceSteps

open AccountsSchema CopyTradingSchema InterleavedProcesses
open MasterTradeReplication (CopyConfig Handling ReplicationSideTask replicationSystem)
open MasterBalances

variable {isValidUuid : String → Bool} {x x' : ExchangeStore} {l l' : Process} {action : Action}
  {read : BalanceRead} {userId : Uuid} {currency : Currency} {c d : ExchangeConfig}
  {e : Event Action}

/-- Reads of balances do not touch what is copied. -/
theorem getMasterOrFollowerBalance_copying :
    (getMasterOrFollowerBalance isValidUuid x read userId currency).1.copying = x.copying := by
  simp only [getMasterOrFollowerBalance]
  split
  · rfl
  · split <;> rfl

/-- The system as replication sees it. -/
def copyConfig (c : ExchangeConfig) : CopyConfig :=
  ⟨c.shared.copying, fun p => (c.procs p).1⟩

/-- What one step does to the store and the process of replication. -/
inductive ExchangeEffect (isValidUuid : String → Bool) (x : ExchangeStore) :
    Process → Action → ExchangeStore → Process → Prop
  | copied {l l' : MasterTradeReplication.Process} {placed : Option Placement} {action : Action}
      {copyAction : MasterTradeReplication.Action} {x' : ExchangeStore}
      (hother : ∀ available, copyAction ≠ .balance available)
      (hstep : MasterTradeReplication.step x.copying l copyAction = some (x'.copying, l')) :
    ExchangeEffect isValidUuid x (l, placed) action x' (l', placed)
  | balanced {h : Handling} {task : ReplicationSideTask} {subscribers : List CopySubscription}
      {placed : Option Placement} {read : BalanceRead} {l' : MasterTradeReplication.Process}
      {x' : ExchangeStore} (hpoint : h.point = .balancing task subscribers)
      (hstep : MasterTradeReplication.step x.copying (.handling h)
        (.balance (getMasterOrFollowerBalance isValidUuid x read task.masterUserId
          (balanceCurrency task)).2) = some (x'.copying, l')) :
    ExchangeEffect isValidUuid x (.handling h, placed) (.balance read) x'
      (l', (tradedOrder x h.trade task.side).bind x.placed)
  | outside {l : Process} {action : Action} {x' : ExchangeStore}
      (hcopying : x'.copying = x.copying) : ExchangeEffect isValidUuid x l action x' l

/-- Calls of the orders service go on within replication. -/
theorem copying_sagaStep {call : ℕ} {sagaAction : OrderSagas.Action}
    (h : sagaStep isValidUuid x call sagaAction = some x') :
    ∃ ordersAction, MasterTradeReplication.step x.copying .idle (.orders ⟨call, ordersAction⟩) =
      some (x'.copying, .idle) := by
  obtain ⟨⟨services, process⟩, hsaga, rfl⟩ := Option.map_eq_some_iff.mp h
  have horders : ∃ ordersAction, OrdersTransactions.step call x.copying.orders.shared
      (x.copying.orders.procs call) ordersAction = some (services.orders, process) := by
    cases sagaAction with
    | orders ordersAction =>
      refine ⟨ordersAction, ?_⟩
      cases ordersAction with
      | reply reply => cases hsaga
      | _ =>
        obtain ⟨r, hr, heq⟩ := Option.map_eq_some_iff.mp hsaga
        cases heq
        exact hr
    | balanceCall delivery message =>
      obtain ⟨request, -, hreply⟩ := Option.bind_eq_some_iff.mp hsaga
      obtain ⟨r, hr, heq⟩ := Option.map_eq_some_iff.mp hreply
      cases heq
      exact ⟨_, hr⟩
  obtain ⟨ordersAction, hstep⟩ := horders
  have hnext : OrdersTransactions.ordersSystem.next x.copying.orders ⟨call, ordersAction⟩ =
      some ⟨services.orders, Function.update x.copying.orders.procs call process⟩ :=
    System.next_eq_some.mpr ⟨_, _, hstep, rfl⟩
  exact ⟨ordersAction, by simp only [MasterTradeReplication.step, hnext, Option.map_some]⟩

theorem copied_copyingStep {copyAction : MasterTradeReplication.Action}
    (h : copyingStep x l copyAction = some (x', l')) :
    ExchangeEffect isValidUuid x l action x' l' := by
  have hcopied (hother : ∀ available, copyAction ≠ .balance available)
      (h : (MasterTradeReplication.step x.copying l.1 copyAction).map (fun r =>
        ({ x with copying := r.1 }, (r.2, l.2))) = some (x', l')) :
      ExchangeEffect isValidUuid x l action x' l' := by
    obtain ⟨r, hr, heq⟩ := Option.map_eq_some_iff.mp h
    cases heq
    exact .copied hother hr
  cases copyAction with
  | balance available => cases h
  | orders event => cases h
  | _ => exact hcopied nofun h

theorem balanced_balanceStep (h : balanceStep isValidUuid x read l = some (x', l')) :
    ExchangeEffect isValidUuid x l (.balance read) x' l' := by
  obtain ⟨process, placed⟩ := l
  cases process with
  | handling handling =>
    simp only [balanceStep] at h
    split at h
    · next task subscribers hpoint =>
      obtain ⟨r, hr, heq⟩ := Option.map_eq_some_iff.mp h
      cases heq
      rw [getMasterOrFollowerBalance_copying] at hr
      exact .balanced hpoint hr
    · cases h
  | _ => cases h

theorem step_cases (h : MasterBalances.step isValidUuid x l action = some (x', l')) :
    ExchangeEffect isValidUuid x l action x' l' := by
  obtain ⟨process, placed⟩ := l
  cases action with
  | copying copyAction => exact copied_copyingStep h
  | balance read => exact balanced_balanceStep h
  | getBalance userId currency read =>
    cases process with
    | idle =>
      cases h
      exact .outside getMasterOrFollowerBalance_copying
    | _ => cases h
  | saga call sagaAction =>
    cases process with
    | idle =>
      obtain ⟨x₁, hsaga, heq⟩ := Option.map_eq_some_iff.mp h
      cases heq
      obtain ⟨ordersAction, hstep⟩ := copying_sagaStep hsaga
      refine .copied ?_ hstep
      exact nofun
    | _ => cases h
  | accounts request =>
    cases process with
    | idle =>
      obtain ⟨r, -, heq⟩ := Option.map_eq_some_iff.mp h
      cases heq
      exact .outside rfl
    | _ => cases h

/-- A step is one of replication by the same process, or none that replication sees. -/
theorem copyConfig_next (hnext : (exchangeSystem isValidUuid).next c e = some d) :
    copyConfig d = copyConfig c ∨ ∃ copyAction,
      replicationSystem.next (copyConfig c) ⟨e.proc, copyAction⟩ = some (copyConfig d) := by
  obtain ⟨x', l', hstep, rfl⟩ := System.next_eq_some.mp hnext
  have heffect := step_cases hstep
  have hprocs : (fun p => (Function.update c.procs e.proc l' p).1) =
      Function.update (fun p => (c.procs p).1) e.proc l'.1 := by
    funext p
    by_cases hp : p = e.proc
    · subst hp
      simp
    · simp [Function.update_of_ne hp]
  have hcopied {copyAction : MasterTradeReplication.Action}
      (hcopy : MasterTradeReplication.step c.shared.copying (c.procs e.proc).1 copyAction =
        some (x'.copying, l'.1)) : ∃ copyAction, replicationSystem.next (copyConfig c)
          ⟨e.proc, copyAction⟩ = some (copyConfig ⟨x', Function.update c.procs e.proc l'⟩) :=
    ⟨copyAction, System.next_eq_some.mpr ⟨_, _, hcopy, by rw [copyConfig, hprocs]; rfl⟩⟩
  generalize e.action = action at heffect
  generalize hl : c.procs e.proc = l at heffect
  cases heffect with
  | copied hother hcopy =>
    rw [hl] at hcopied
    exact Or.inr (hcopied hcopy)
  | balanced hpoint hcopy =>
    rw [hl] at hcopied
    exact Or.inr (hcopied hcopy)
  | outside hcopying =>
    refine Or.inl ?_
    rw [copyConfig, copyConfig, hcopying, hprocs, ← hl]
    exact congrArg _ (Function.update_eq_self e.proc _)

end EtherTrade.MasterBalanceSteps
