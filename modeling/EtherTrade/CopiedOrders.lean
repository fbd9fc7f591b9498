import EtherTrade.CopyHistory
import EtherTrade.OrderResponses

/-!
# Copied orders and their rows

What a worker knows of the order it asked for, and what a completed row says of it, over
every interleaving. A call made for a copy that has returned was given an order for that
copy; the row of the copy was made from that answer.
-/

namespace EtherTrade.CopiedOrders

open DecimalNumbers KeyedRows AccountsSchema CopyTradingSchema InterleavedProcesses
open OrdersSchema hiding TradeExecutedEvent
open MasterTradeReplication MasterTradeReplicationSteps CopyHistory CopyTradingConstants
open OrderIdempotencyLaws OrderResponses
open OrdersTransactions (OrdersConfig ordersSystem ValidRequest Creating)
open TradeSettlement (TradeExecutedEvent KafkaBatchConsumerPayload)

variable {s s' : CopyStore} {task : ReplicationSideTask} {subscriber : CopySubscription}
  {copying copying' : Copying} {progress progress' : Replicating} {workerAction : WorkerAction}
  {h : Handling} {l l' : Process} {action : Action} {request request' : CreateOrderRequest}
  {c d : OrdersConfig} {e : Event OrdersTransactions.Action} {call : ℕ} {copy copy' : Copy}
  {item item' : OrderItem} {row : CopyOrderHistory}

/-! ### Calls of the orders service -/

/-- What becomes of a call in one step. Its request stays, and its response is final. -/
inductive Onward : OrdersTransactions.Process → OrdersTransactions.Process → Prop
  | same (l : OrdersTransactions.Process) : Onward l l
  | started (l : OrdersTransactions.Process) : Onward .idle l
  | creating {valid : ValidRequest} {progress progress' : Creating}
      (hopen : ∀ item, progress ≠ .returned item) :
      Onward (.creating valid progress) (.creating valid progress')
  | cancelling {request : CancelOrderRequest} {progress progress' : OrdersTransactions.Cancelling} :
      Onward (.cancelling request progress) (.cancelling request progress')

theorem onward_step {p : ℕ} {s s' : OrdersTransactions.Shared} {l l' : OrdersTransactions.Process}
    {action : OrdersTransactions.Action}
    (h : OrdersTransactions.step p s l action = some (s', l')) : Onward l l' := by
  cases l with
  | idle => exact .started l'
  | refused exception => cases h
  | creating valid progress =>
    obtain ⟨⟨s₁, progress'⟩, hstep, hr⟩ := Option.map_eq_some_iff.mp h
    cases hr
    refine .creating ?_
    rintro item rfl
    cases hstep
  | cancelling request progress =>
    obtain ⟨⟨s₁, progress'⟩, hstep, hr⟩ := Option.map_eq_some_iff.mp h
    cases hr
    exact .cancelling

theorem onward_next (h : ordersSystem.next c e = some d) (call : ℕ) :
    Onward (c.procs call) (d.procs call) := by
  obtain ⟨s, l, hstep, rfl⟩ := System.next_eq_some.mp h
  by_cases hcall : call = e.proc
  · subst hcall
    simpa using onward_step hstep
  · simpa [Function.update_of_ne hcall] using .same (c.procs call)

theorem Onward.ne_idle {l l' : OrdersTransactions.Process} (h : Onward l l') (hl : l ≠ .idle) :
    l' ≠ .idle := by
  cases h with
  | same => exact hl
  | started => exact absurd rfl hl
  | creating => exact fun h => OrdersTransactions.Process.noConfusion h
  | cancelling => exact fun h => OrdersTransactions.Process.noConfusion h

theorem Onward.returned {l l' : OrdersTransactions.Process} {valid : ValidRequest}
    (h : Onward l l') (hl : l = .creating valid (.returned item)) : l' = l := by
  cases h with
  | same => rfl
  | started => cases hl
  | creating hopen =>
    cases hl
    exact absurd rfl (hopen item)
  | cancelling => cases hl

/-- The request of a call is the one it was made with. -/
theorem Onward.asked {l l' : OrdersTransactions.Process} {valid : ValidRequest}
    {progress' : Creating} (h : Onward l l') (hl : l ≠ .idle)
    (hl' : l' = .creating valid progress') : ∃ progress, l = .creating valid progress := by
  cases h with
  | same => exact ⟨progress', hl'⟩
  | started => exact absurd rfl hl
  | creating =>
    cases hl'
    exact ⟨_, rfl⟩
  | cancelling => cases hl'

/-- A call that is made is refused, or has its request. -/
theorem createOrder_next (hidle : c.procs call = .idle)
    (h : ordersSystem.next c ⟨call, .createOrder request⟩ = some d) :
    (∃ exception, d.procs call = .refused exception) ∨
      ∃ valid, d.procs call = .creating valid .checking ∧ valid.val = request := by
  obtain ⟨s, l, hstep, rfl⟩ := System.next_eq_some.mp h
  change OrdersTransactions.step call c.shared (c.procs call) (.createOrder request) =
    some (s, l) at hstep
  rw [hidle] at hstep
  simp only [OrdersTransactions.step] at hstep
  simp only [Function.update_self]
  split at hstep <;> cases hstep
  · exact Or.inl ⟨_, rfl⟩
  · exact Or.inr ⟨_, rfl, rfl⟩

/-! ### What a step keeps -/

/-- What a step of replication does to the orders service and its calls. -/
inductive OrdersEffect (s : CopyStore) (action : Action) (s' : CopyStore) : Prop
  | kept (horders : s'.orders = s.orders) (hcalls : s'.calls = s.calls)
  | event (e : Event OrdersTransactions.Action) (haction : action = .orders e)
      (hnext : ordersSystem.next s.orders e = some s'.orders) (hcalls : s'.calls = s.calls)
  | called (call : ℕ) (copy : Copy) (request : CreateOrderRequest)
      (hidle : s.orders.procs call = .idle)
      (hnext : ordersSystem.next s.orders ⟨call, .createOrder request⟩ = some s'.orders)
      (hcalls : s'.calls = Function.update s.calls call (some copy))

theorem ordersEffect_step (hstep : step s l action = some (s', l')) : OrdersEffect s action s' := by
  have heffect := step_cases hstep
  cases heffect with
  | world hhistory hsubscriptions horders hcalls => exact .kept horders hcalls
  | orders hnext => exact .event _ rfl hnext rfl
  | message heffect => cases heffect <;> exact .kept rfl rfl
  | @worker _ _ _ _ _ _ worker _ _ _ hpoint hworker hreplicate =>
    have heffect := replicateStep_cases hreplicate
    generalize worker.progress = progress at heffect
    cases heffect with
    | copied heffect =>
      cases heffect with
      | called hidle hnext => exact .called _ _ _ hidle hnext rfl
      | _ => exact .kept rfl rfl
    | _ => exact .kept rfl rfl
  | _ => exact .kept rfl rfl

theorem subscriptionsKept_step (hstep : step s l action = some (s', l')) :
    SubscriptionsKept s.db s'.db := by
  have heffect := step_cases hstep
  cases heffect with
  | world hhistory hsubscriptions => exact hsubscriptions
  | message heffect =>
    cases heffect with
    | marked =>
      refine subscriptionsKept_of_eq ?_
      simp only [markProcessed, setDb, CopyTradingDb.markProcessed]
      split <;> rfl
    | _ => exact subscriptionsKept_of_eq rfl
  | @worker _ _ _ _ _ _ worker _ _ _ hpoint hworker hreplicate =>
    have heffect := replicateStep_cases hreplicate
    generalize worker.progress = progress at heffect
    cases heffect with
    | copied heffect =>
      cases heffect with
      | inserted hrecord hcreate =>
        refine subscriptionsKept_of_eq ?_
        rcases createHistory_cases hcreate with ⟨hdb, -⟩ | ⟨row, -, -, hdb⟩ <;> rw [setDb, hdb]
      | _ => exact subscriptionsKept_of_eq rfl
    | _ => exact subscriptionsKept_of_eq rfl
  | _ => exact subscriptionsKept_of_eq rfl

/-- Calls made for a copy have started. -/
def Started (s : CopyStore) : Prop :=
  ∀ call copy, s.calls call = some copy → s.orders.procs call ≠ .idle

/-- What no step undoes. -/
structure Kept (s s' : CopyStore) : Prop where
  subscriptions : SubscriptionsKept s.db s'.db
  calls : ∀ call copy, s.calls call = some copy → s'.calls call = some copy
  onward : ∀ call, Onward (s.orders.procs call) (s'.orders.procs call)

theorem kept_step (hstarted : Started s) (hstep : step s l action = some (s', l')) :
    Kept s s' := by
  have hsubscriptions := subscriptionsKept_step hstep
  cases ordersEffect_step hstep with
  | kept horders hcalls =>
    refine ⟨hsubscriptions, fun call copy hcall => by rwa [hcalls], fun call => ?_⟩
    rw [horders]
    exact .same _
  | event e haction hnext hcalls =>
    exact ⟨hsubscriptions, fun call copy hcall => by rwa [hcalls], onward_next hnext⟩
  | called call copy request hidle hnext hcalls =>
    refine ⟨hsubscriptions, fun other copy' hcopy => ?_, onward_next hnext⟩
    have hne : other ≠ call := fun heq => hstarted other copy' hcopy (heq ▸ hidle)
    rwa [hcalls, Function.update_of_ne hne]

theorem started_step (hstarted : Started s) (hstep : step s l action = some (s', l')) :
    Started s' := by
  intro call copy hcall
  have hold (hcall : s.calls call = some copy) : s'.orders.procs call ≠ .idle :=
    ((kept_step hstarted hstep).onward call).ne_idle (hstarted call copy hcall)
  cases ordersEffect_step hstep with
  | kept horders hcalls => exact hold (hcalls ▸ hcall)
  | event e haction hnext hcalls => exact hold (hcalls ▸ hcall)
  | called other copy' request hidle hnext hcalls =>
    by_cases hother : call = other
    · subst hother
      rcases createOrder_next hidle hnext with ⟨exception, hrefused⟩ | ⟨valid, hmade, -⟩
      · rw [hrefused]
        exact OrdersTransactions.Process.noConfusion
      · rw [hmade]
        exact OrdersTransactions.Process.noConfusion
    · refine hold ?_
      rwa [hcalls, Function.update_of_ne hother] at hcall

/-! ### What calls were given -/

/-- A call for the copy, made with the request, has returned the response. -/
def Given (s : CopyStore) (copy : Copy) (request : CreateOrderRequest) (item : OrderItem) : Prop :=
  ∃ call valid, s.calls call = some copy ∧
    s.orders.procs call = .creating valid (.returned item) ∧ valid.val = request

theorem Given.kept (hkept : Kept s s') (h : Given s copy request item) :
    Given s' copy request item := by
  obtain ⟨call, valid, hcall, hreturned, hrequest⟩ := h
  exact ⟨call, valid, hkept.calls call copy hcall,
    ((hkept.onward call).returned hreturned).trans hreturned, hrequest⟩

/-- Only a step of the orders service answers a call. -/
theorem given_step (hstep : step s l action = some (s', l')) (h : Given s' copy request item) :
    Given s copy request item ∨ ∃ e valid, action = .orders e ∧
      ordersSystem.next s.orders e = some s'.orders ∧ s.calls e.proc = some copy ∧
        s'.orders.procs e.proc = .creating valid (.returned item) ∧ valid.val = request := by
  obtain ⟨call, valid, hcall, hreturned, hrequest⟩ := h
  cases ordersEffect_step hstep with
  | kept horders hcalls =>
    rw [hcalls] at hcall
    rw [horders] at hreturned
    exact Or.inl ⟨call, valid, hcall, hreturned, hrequest⟩
  | event e haction hnext hcalls =>
    rw [hcalls] at hcall
    by_cases hproc : call = e.proc
    · subst hproc
      exact Or.inr ⟨e, valid, haction, hnext, hcall, hreturned, hrequest⟩
    · rw [System.next_procs_of_ne hnext hproc] at hreturned
      exact Or.inl ⟨call, valid, hcall, hreturned, hrequest⟩
  | called other copy' request' hidle hnext hcalls =>
    by_cases hother : call = other
    · subst hother
      rcases createOrder_next hidle hnext with ⟨exception, hrefused⟩ | ⟨valid', hmade, -⟩
      · rw [hrefused] at hreturned
        cases hreturned
      · rw [hmade] at hreturned
        cases hreturned
    · rw [hcalls, Function.update_of_ne hother] at hcall
      rw [System.next_procs_of_ne hnext hother] at hreturned
      exact Or.inl ⟨call, valid, hcall, hreturned, hrequest⟩

/-- Two calls that were given one order have one key. -/
theorem requestKey_of_orderId (hc : Responding c) {p q : ℕ} {valid other : ValidRequest}
    (hp : c.procs p = .creating valid (.returned item))
    (hq : c.procs q = .creating other (.returned item')) (hid : item'.orderId = item.orderId) :
    requestKey other.val = requestKey valid.val := by
  have hresponds : Responds c.shared.store.db (.creating valid (.returned item)) := hp ▸ hc.calls p
  have hother : Responds c.shared.store.db (.creating other (.returned item')) := hq ▸ hc.calls q
  obtain ⟨⟨terms, hterms, hkey, -⟩, -⟩ := hresponds
  obtain ⟨⟨terms', hterms', hkey', -⟩, -⟩ := hother
  rw [hid, hterms] at hterms'
  obtain rfl := Option.some.inj hterms'
  exact hkey'.symm.trans hkey

/-- A call that was made for a copy and finds a completed record of its key is answered with
what it asked for, and no other copy was given that order. -/
def AnsweredInKind (s : CopyStore) (action : Action) : Prop :=
  ∀ call copy valid record item, action = .orders ⟨call, .statement⟩ →
    s.calls call = some copy → s.orders.procs call = .creating valid .checking →
      s.orders.shared.store.db.findRecord s.now valid.val.userId
        OrdersTransactions.createOrderOperation valid.val.idempotencyKey = some record →
          record.status = .completed → record.responsePayload = some item →
            Carries valid.val item ∧ ∀ copy' request item', Given s copy' request item' →
              item'.orderId = item.orderId → copy' = copy

/-- The copies of calls are given what they asked for, and each its own orders. -/
structure Traced (s : CopyStore) : Prop where
  responding : Responding s.orders
  started : Started s
  carried : ∀ copy request item, Given s copy request item → Carries request item
  once : ∀ copy request item copy' request' item', Given s copy request item →
    Given s copy' request' item' → item'.orderId = item.orderId → copy' = copy

theorem responding_step (hresponding : Responding s.orders)
    (hstep : step s l action = some (s', l')) : Responding s'.orders := by
  cases ordersEffect_step hstep with
  | kept horders hcalls => rwa [horders]
  | event e haction hnext hcalls => exact responding_next hresponding hnext
  | called call copy request hidle hnext hcalls => exact responding_next hresponding hnext

/-- An answer that a step brings carries its request, and its order is new to other copies. -/
theorem answer_next (htraced : Traced s) (hkind : AnsweredInKind s action)
    {e : Event OrdersTransactions.Action} {valid : ValidRequest} (haction : action = .orders e)
    (hnext : ordersSystem.next s.orders e = some s'.orders) (hcall : s.calls e.proc = some copy)
    (hreturned : s'.orders.procs e.proc = .creating valid (.returned item)) :
    Carries valid.val item ∧ ∀ copy' request' item', Given s copy' request' item' →
      item'.orderId = item.orderId → copy' = copy := by
  rcases returned_next htraced.responding hnext hreturned with ⟨hstatement, hchecking, record,
    hfound, hstatus, hpayload⟩ | ⟨hcarries, hkey⟩
  · refine hkind e.proc copy valid record item ?_ hcall hchecking hfound hstatus hpayload
    rw [haction, ← hstatement]
  · refine ⟨hcarries, fun copy' request' item' hgiven hid => ?_⟩
    obtain ⟨call, other, -, hother, -⟩ := hgiven
    have hlater := (onward_next hnext call).returned hother
    exact absurd (requestKey_of_orderId (responding_next htraced.responding hnext) hreturned
      (hlater.trans hother) hid) (hkey call other item' hother)

theorem traced_step (htraced : Traced s) (hkind : AnsweredInKind s action)
    (hstep : step s l action = some (s', l')) : Traced s' := by
  refine ⟨responding_step htraced.responding hstep, started_step htraced.started hstep,
    fun copy request item hgiven => ?_,
    fun copy request item copy' request' item' hgiven hgiven' hid => ?_⟩
  · rcases given_step hstep hgiven with hold | ⟨e, valid, haction, hnext, hcall, hreturned, rfl⟩
    · exact htraced.carried copy request item hold
    · exact (answer_next htraced hkind haction hnext hcall hreturned).1
  · rcases given_step hstep hgiven with hold | ⟨e, valid, haction, hnext, hcall, hreturned, -⟩
    · rcases given_step hstep hgiven' with hold' | ⟨e, valid, haction, hnext, hcall, hreturned, -⟩
      · exact htraced.once copy request item copy' request' item' hold hold' hid
      · exact ((answer_next htraced hkind haction hnext hcall hreturned).2 copy request item
          hold hid.symm).symm
    · rcases given_step hstep hgiven' with hold' | ⟨e', valid', haction', -, hcall', -⟩
      · exact (answer_next htraced hkind haction hnext hcall hreturned).2 copy' request' item'
          hold' hid
      · obtain rfl := Action.orders.inj (haction.symm.trans haction')
        exact Option.some.inj (hcall'.symm.trans hcall)

/-! ### What workers know -/

/-- The subscription that the worker has read is there. -/
def Known (db : CopyTradingDb) (subscriber : CopySubscription) : Prop :=
  ∃ row ∈ db.copySubscriptions, row.id = subscriber.id ∧ row.follows = subscriber.follows

theorem Known.kept {db db' : CopyTradingDb} (hkept : SubscriptionsKept db db')
    (h : Known db subscriber) : Known db' subscriber := by
  obtain ⟨row, hrow, hid, hfollows⟩ := h
  obtain ⟨row', hrow', hid', hfollows'⟩ := hkept.rows row hrow
  exact ⟨row', hrow', hid'.trans hid, hfollows'.trans hfollows⟩

/-- The request is one that copies the trade. -/
def Asks (task : ReplicationSideTask) (subscriber : CopySubscription)
    (request : CreateOrderRequest) : Prop :=
  ∃ quantity, request = copyRequest task subscriber quantity

/-- What a worker knows of its order. -/
def Knows (s : CopyStore) (task : ReplicationSideTask) (subscriber : CopySubscription) :
    Replicating → Prop
  | .holding _ (.ordering request) => Asks task subscriber request
  | .holding _ (.awaiting request call) =>
    Asks task subscriber request ∧ s.calls call = some (subscriber.id, task.tradeId) ∧
      ∀ valid progress, s.orders.procs call = .creating valid progress → valid.val = request
  | .holding _ (.completing request followerOrderId) =>
    Asks task subscriber request ∧ ∃ item, Given s (subscriber.id, task.tradeId) request item ∧
      item.orderId = followerOrderId
  | _ => True

theorem Knows.kept (hstarted : Started s) (hkept : Kept s s')
    (h : Knows s task subscriber progress) : Knows s' task subscriber progress := by
  unfold Knows at h ⊢
  split
  · exact h
  · obtain ⟨hasks, hcall, hrequest⟩ := h
    refine ⟨hasks, hkept.calls _ _ hcall, fun valid progress' hprogress => ?_⟩
    obtain ⟨progress, hold⟩ := (hkept.onward _).asked (hstarted _ _ hcall) hprogress
    exact hrequest valid progress hold
  · obtain ⟨hasks, item, hgiven, hid⟩ := h
    exact ⟨hasks, item, hgiven.kept hkept, hid⟩
  · trivial

theorem knows_copy {lockToken : Uuid}
    (h : Knows s task subscriber (.holding lockToken copying))
    (heffect : CopyEffect s task subscriber copying workerAction s' copying') :
    Knows s' task subscriber (.holding lockToken copying') := by
  cases heffect with
  | dust quantity => trivial
  | sized quantity => exact ⟨quantity, rfl⟩
  | called hidle hnext =>
    refine ⟨h, Function.update_self .., fun valid progress hprogress => ?_⟩
    rcases createOrder_next hidle hnext with ⟨exception, hrefused⟩ | ⟨made, hmade, hrequest⟩
    · cases hrefused.symm.trans hprogress
    · cases hmade.symm.trans hprogress
      exact hrequest
  | replied hresponse =>
    obtain ⟨hasks, hcall, hrequest⟩ := h
    unfold response at hresponse
    split at hresponse
    · next valid item hreturned =>
      cases hresponse
      exact ⟨hasks, _, ⟨_, valid, hcall, hreturned, hrequest valid _ hreturned⟩, rfl⟩
    · cases hresponse
  | inserted hrecord hcreate hnext =>
    rcases hnext with ⟨-, rfl⟩ | ⟨-, rfl⟩
    · trivial
    · cases copying <;> trivial
  | failed => cases copying <;> trivial

theorem knows_worker (h : Knows s task subscriber progress)
    (heffect : WorkerEffect s task subscriber progress workerAction s' progress') :
    Knows s' task subscriber progress' := by
  cases heffect with
  | copied heffect => exact knows_copy h heffect
  | _ => trivial

end EtherTrade.CopiedOrders
