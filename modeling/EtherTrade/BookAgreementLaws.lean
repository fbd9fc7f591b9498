import EtherTrade.OpenOrders

/-!
# The book and the database over calls

Calls that follow one another, each without a failure, keep the book in Valkey equal to
the open orders of the database, and every row equal to the sum of its trades.
-/

namespace EtherTrade.BookAgreementLaws

open DecimalNumbers KeyedRows AccountsSchema OrdersSchema OrderBook MatchingEngine
open OrdersTransactions OrdersTransactionSteps OrderFillLaws OrderReservations SequentialOrders
open RestingOrders OpenOrders

variable {s : OrdersStore} {request : ValidRequest} {ids : NewIds} {lockReply : BalanceReply}
  {order : Order}

/-- The amount of a new order is a number of units that the column stores as it is. -/
def Call.WholeUnits : Call → Prop
  | .createOrder request _ _ => AtMostEightDecimals request.amount
  | _ => True

/-- A new order of at most eight decimals is a row that the book can rest on. -/
theorem newRow_of_newOrder {db : OrdersDb} {newId : Uuid}
    (hamount : AtMostEightDecimals request.val.amount)
    (h : newOrder request.val newId = some order) (hfresh : db.findById newId = none) :
    NewRow db order := by
  obtain ⟨hpricePositive, hamountPositive⟩ := validateCreateOrderRequest_eq_none request.property
  have hid := newOrder_id h
  simp only [newOrder, Option.bind_eq_bind, Option.bind_eq_some_iff, Option.pure_def,
    Option.some.injEq] at h
  obtain ⟨price, hprice, amount, hamount', rfl⟩ := h
  exact ⟨hid ▸ hfresh, toColumn_nonneg hpricePositive hprice,
    (toColumn_of_atMostEightDecimals hamount hamountPositive hamount').2, rfl, rfl⟩

/-- The commit of a new order keeps rows, trades and book in agreement. -/
theorem agreed_placed (h : Agreed s.db s.valkey) (hnew : NewRow s.db order) :
    Agreed (placed s ids order).1.db (placed s ids order).1.valkey := by
  obtain ⟨hmatched, hreported⟩ := @Agreed.placeOrder _ ids.tradeIds _ _ h hnew
  exact (h.install hmatched hreported).of_eq rfl rfl

theorem agreed_createOrder (h : Agreed s.db s.valkey)
    (hamount : AtMostEightDecimals request.val.amount) :
    Agreed (createOrder s request.val ids lockReply).1.db
      (createOrder s request.val ids lockReply).1.valkey := by
  cases hplaced : placedOrder s request.val ids lockReply with
  | none =>
    obtain ⟨horders, hevents, hvalkey⟩ := createOrder_of_unplaced hplaced
    rw [hvalkey]
    exact h.of_eq horders hevents
  | some order =>
    obtain ⟨hvalues, hfresh⟩ := newOrder_of_placed hplaced
    have hsent : Agreed (lockSent s request.val ids.recordId).db
        (lockSent s request.val ids.recordId).valkey := h.of_eq rfl rfl
    rw [createOrder_of_placed hplaced]
    exact agreed_placed hsent (newRow_of_newOrder hamount hvalues hfresh)

theorem agreed_cancelOrder (h : Agreed s.db s.valkey) (request : CancelOrderRequest) :
    Agreed (cancelOrder s request).1.db (cancelOrder s request).1.valkey := by
  rw [cancelOrder]
  split
  · exact h
  · next order hfind =>
    obtain ⟨hrow, hid, hcancellable⟩ := findById_of_findCancellable hfind
    rw [← hid] at hrow
    by_cases hstatus : order.status ∈ OrderStatus.cancellable
    · rw [if_pos hstatus] at hcancellable
      simp only [hcancellable, ← hid]
      have hcancel (levelTotalQuantity : ℤ) (sequenceId : ℕ) :=
        h.cancel hrow hstatus rfl (show (orderCancelledEvent { order with status := .cancelled }
          levelTotalQuantity sequenceId).trade = none from rfl)
      exact { hcancel _ _ with book := (hcancel 0 0).book.nextSequence }
    · rw [if_neg hstatus] at hcancellable
      simp only [hcancellable, ← hid]
      have hremove := h.removeOrder hrow hstatus
      exact { hremove with book := hremove.book.nextSequence }

theorem agreed_run (h : Agreed s.db s.valkey) {call : Call} (hcall : Call.WholeUnits call) :
    Agreed (call.run s).db (call.run s).valkey := by
  cases call with
  | createOrder request ids lockReply =>
    rw [Call.run]
    split
    · exact h
    · next hvalid => exact @agreed_createOrder s ⟨request, hvalid⟩ ids lockReply h hcall
  | cancelOrder request => exact agreed_cancelOrder h request
  | passTime ms => exact h

theorem agreed_runCalls {calls : List Call} (h : ∀ call ∈ calls, Call.WholeUnits call) :
    Agreed (runCalls calls).db (runCalls calls).valkey := by
  have hrun (s : OrdersStore) (hs : Agreed s.db s.valkey) :
      Agreed (calls.foldl Call.run s).db (calls.foldl Call.run s).valkey := by
    induction calls generalizing s with
    | nil => exact hs
    | cons call calls ih =>
      exact ih (fun c hc => h c (List.mem_cons_of_mem _ hc)) _
        (agreed_run hs (h call List.mem_cons_self))
  exact hrun _ agreed_empty

/-- After calls from an empty store the book holds exactly the open orders, each with what
its row has left, and every row accounts for its amount, its trades and its status. -/
theorem book_agrees {calls : List Call} (h : ∀ call ∈ calls, Call.WholeUnits call) :
    Holds (runCalls calls).valkey (openBook (runCalls calls).db.findById) ∧
      ∀ order ∈ (runCalls calls).db.orders,
        Sound order (tradedQuantity (runCalls calls).db.trades order.id) := by
  have hagreed := agreed_runCalls h
  exact ⟨hagreed.book, fun order horder =>
    hagreed.rows order.id order ((lookup_eq_some hagreed.unique).mpr ⟨horder, rfl⟩)⟩

/-- A seller offers two units, a buyer takes one, and the seller cancels the rest. -/
def offerAndCancel : List Call :=
  [.createOrder (limitOrder "seller" .sell 100 2) ⟨"r", "m", fun _ => "t"⟩ .ok,
    .createOrder (limitOrder "buyer" .buy 100 1) ⟨"q", "a", fun _ => "u"⟩ .ok,
    .cancelOrder ⟨"m", "seller", "k"⟩]

theorem wholeUnits_limitOrder (userId : Uuid) (side : OrderSide) (price amount : ℕ) :
    AtMostEightDecimals (limitOrder userId side price amount).amount := by
  refine ⟨amount * 10 ^ 8, ?_⟩
  have hvalue : (amount : ℚ) = ((amount * 10 ^ 8 : ℤ) : ℚ) / scale := by
    rw [eq_div_iff scale_pos.ne', scale]
    push_cast
    norm_num
  exact congrArg BigNumber.finite hvalue

theorem book_agrees_offerAndCancel :
    (runCalls offerAndCancel).db.orders.map Order.status = [.cancelled, .filled] ∧
      Holds (runCalls offerAndCancel).valkey (openBook (runCalls offerAndCancel).db.findById) ∧
        ∀ order ∈ (runCalls offerAndCancel).db.orders,
          Sound order (tradedQuantity (runCalls offerAndCancel).db.trades order.id) := by
  refine ⟨by decide +kernel, book_agrees fun call hcall => ?_⟩
  simp only [offerAndCancel, List.mem_cons, List.not_mem_nil, or_false] at hcall
  rcases hcall with rfl | rfl | rfl
  · exact wholeUnits_limitOrder _ _ _ _
  · exact wholeUnits_limitOrder _ _ _ _
  · trivial

end EtherTrade.BookAgreementLaws
