import EtherTrade.OrderResponses

/-!
# What the calls of a key are answered

Calls of createOrder with one key may run at once, fail and come again. All of them that return
an order return the same response, whichever of them has placed it, and it is a response about
the only order of the key.
-/

namespace EtherTrade.OrderAnswerLaws

open KeyedRows AccountsSchema OrdersSchema InterleavedProcesses OrdersTransactions
open OrderFillLaws OrderIdempotencyLaws OrderRetryLaws OrderResponses

variable {db db' : OrdersDb} {p : ℕ} {s' : Shared} {l' : Process} {action : Action}
  {c d : OrdersConfig} {e : Event Action} {es : List (Event Action)} {key : Uuid × String}
  {item response : OrderItem} {valid : ValidRequest}

/-- The completed record of the key keeps the response. -/
def Kept (db : OrdersDb) (key : Uuid × String) (item : OrderItem) : Prop :=
  ∃ r ∈ db.idempotencyRecords, r.scope = recordScope key ∧ r.status = .completed ∧
    r.responsePayload = some item

theorem Kept.kept (hkept : RecordsKept db db') (h : Kept db key item) : Kept db' key item := by
  obtain ⟨r, hr, hscope, hstatus, hpayload⟩ := h
  obtain ⟨r', hr', -, -, hsame⟩ := hkept r hr
  rw [hsame hstatus] at hr'
  exact ⟨r, hr', hscope, hstatus, hpayload⟩

/-- A key has one record, and a record one response. -/
theorem Kept.unique (howned : OwnedRecords c) (h : Kept c.shared.store.db key item)
    (h' : Kept c.shared.store.db key response) : item = response := by
  obtain ⟨r, hr, hscope, -, hpayload⟩ := h
  obtain ⟨r', hr', hscope', -, hpayload'⟩ := h'
  obtain rfl := howned.scopes.eq hr hr' (hscope.trans hscope'.symm)
  exact Option.some.inj (hpayload.symm.trans hpayload')

/-- What a call has returned is kept for the later calls of its key. -/
structure Answering (c : OrdersConfig) : Prop where
  responding : Responding c
  returned : ∀ p valid item, c.procs p = .creating valid (.returned item) →
    Kept c.shared.store.db (requestKey valid.val) item

theorem returned_own (hc : Responding c)
    (h : step p c.shared (c.procs p) action = some (s', .creating valid (.returned item))) :
    Kept s'.store.db (requestKey valid.val) item := by
  rcases step_write h with ⟨other, progress, progress', hl, hl', hwrite⟩ | ⟨-, hquiet, -⟩
  · obtain ⟨rfl, rfl⟩ := Process.creating.inj hl'
    cases hwrite with
    | kept hrecords hquiet => exact absurd (hquiet .empty) not_responds_empty
    | @found record item _ hfound hstatus hpayload =>
      obtain ⟨hlookup, -⟩ := Option.filter_eq_some_iff.mp hfound
      obtain ⟨hmem, hscope⟩ := lookup_mem hlookup
      exact ⟨record, hmem, hscope, hstatus, hpayload⟩
    | completed =>
      obtain ⟨own, hown, hid, hscope⟩ := hc.scopes p valid _ _ hl rfl
      refine ⟨_, List.mem_map_of_mem hown, ?_⟩
      rw [if_pos hid]
      exact ⟨hscope, rfl, rfl⟩
  · exact absurd (hquiet .empty) not_responds_empty

theorem answering_next (hc : Answering c) (h : ordersSystem.next c e = some d) : Answering d := by
  have hresponding := responding_next hc.responding h
  obtain ⟨s', l', hs, rfl⟩ := System.next_eq_some.mp h
  refine ⟨hresponding, fun q valid item hq => ?_⟩
  by_cases hqe : q = e.proc
  · subst hqe
    obtain rfl : l' = .creating valid (.returned item) := by simpa using hq
    exact returned_own hc.responding hs
  · have hq' : c.procs q = .creating valid (.returned item) := by
      simpa [Function.update_of_ne hqe] using hq
    exact (hc.returned q valid item hq').kept (recordsKept_step hc.responding hs)

theorem answering_of_exec (h : ordersSystem.exec initial es = some d) : Answering d := by
  refine System.exec_invariant h ⟨responding_initial, ?_⟩ fun _ _ _ => answering_next
  intro p valid item hp
  cases hp

/-- In every run, a call that returns an order names the only committed order of its key and has
the values of it that no update changes; and calls with one key return the same response. -/
theorem answers_agree (es : List (Event Action)) (d : OrdersConfig)
    (h : ordersSystem.exec initial es = some d) :
    (∀ p valid item, d.procs p = .creating valid (.returned item) →
      (∃ order ∈ d.shared.store.db.orders, orderKey order = requestKey valid.val ∧
        itemTerms item = itemTerms (mapOrderToItem order)) ∧
      ∀ order ∈ d.shared.store.db.orders, orderKey order = requestKey valid.val →
        order.id = item.orderId) ∧
    ∀ p q valid other item response, d.procs p = .creating valid (.returned item) →
      d.procs q = .creating other (.returned response) →
        requestKey valid.val = requestKey other.val → item = response := by
  have hd := answering_of_exec h
  refine ⟨fun p valid item hp => ?_, fun p q valid other item response hp hq hkey => ?_⟩
  · have hresponds : Responds d.shared.store.db (.creating valid (.returned item)) :=
      hp ▸ hd.responding.calls p
    obtain ⟨⟨terms, hterms, hkey, hitem⟩, -⟩ := hresponds
    obtain ⟨order, hfound, rfl⟩ := Option.map_eq_some_iff.mp hterms
    obtain ⟨hmem, hid⟩ := lookup_mem hfound
    refine ⟨⟨order, hmem, hkey, hitem⟩, fun other hother hsame => ?_⟩
    have hrow := committedKey_of_mem hd.responding.keys hmem
    have hrow' := committedKey_of_mem hd.responding.keys hother
    rw [hsame, ← hkey] at hrow'
    exact (hd.responding.keys.apart.once _ _ _ hrow' hrow).trans hid
  · have hkept := hd.returned p valid item hp
    rw [hkey] at hkept
    exact hkept.unique hd.responding.owned (hd.returned q other response hq)

/-- The client has its order, and asks for it again. -/
def askedTwice : List (Event Action) :=
  placedOnce ++ [⟨1, .createOrder (limitOrder "first" .buy 100 1)⟩, ⟨1, .statement⟩]

theorem askedTwice_executes : (ordersSystem.exec initial askedTwice).isSome = true := by
  decide +kernel

theorem answers_agree_askedTwice :
    let d := (ordersSystem.exec initial askedTwice).get askedTwice_executes
    ∃ valid item response, d.procs 0 = .creating valid (.returned item) ∧
      d.procs 1 = .creating valid (.returned response) ∧ item = response := by
  intro d
  have hagree := (answers_agree askedTwice d (Option.some_get _).symm).2
  have hfirst : d.procs 0 = .creating ⟨limitOrder "first" .buy 100 1, by decide +kernel⟩
      (.returned ⟨"a", "first", ⟨.eth, .usdt⟩, .buy, .limit, 10000000000, 100000000, 0, 100000000,
        .opened⟩) := by decide +kernel
  have hagain : d.procs 1 = .creating ⟨limitOrder "first" .buy 100 1, by decide +kernel⟩
      (.returned ⟨"a", "first", ⟨.eth, .usdt⟩, .buy, .limit, 10000000000, 100000000, 0, 100000000,
        .opened⟩) := by decide +kernel
  exact ⟨_, _, _, hfirst, hagain, hagree 0 1 _ _ _ _ hfirst hagain rfl⟩

end EtherTrade.OrderAnswerLaws
