import EtherTrade.MatchingLoop
import EtherTrade.OrderFillLaws

/-!
# Bids and asks that do not cross

Whether a call leaves a book in which no bid reaches an ask of another user. The matching
loop ends when the taker is filled or the price no longer crosses, but also when the
entries it has read are used up.
-/

namespace EtherTrade.UncrossedBookLaws

open KeyedRows AccountsSchema OrdersSchema OrderBook MatchingEngine OrdersTransactions
open SequentialOrders RestingOrders MatchingLoop

variable {db : OrdersDb} {tradeIds : ℕ → Uuid} {m : Matching} {v : Valkey} {book : Book}
  {taker : Order} {e : OrderbookEntry} {s : OrdersStore} {ids : NewIds} {lockReply : BalanceReply}

/-- A bid at or above an ask of another user. -/
structure Crosses (bid ask : OrderbookEntry) : Prop where
  bid_side : bid.side = .buy
  ask_side : ask.side = .sell
  pair_eq : bid.pair = ask.pair
  users_ne : bid.userId ≠ ask.userId
  price_le : ask.price ≤ bid.price

def Uncrossed (book : Book) : Prop :=
  ∀ bidId askId bid ask, book bidId = some bid → book askId = some ask → ¬Crosses bid ask

theorem opposes_iff_crosses : Opposes taker e ↔
    Crosses (entryOf taker) e ∨ Crosses e (entryOf taker) := by
  constructor
  · rintro ⟨hpair, hside, huser, hprice⟩
    cases htaker : taker.side with
    | buy =>
      simp only [htaker, OrderSide.opposing, isPriceMatch, decide_eq_true_eq] at hside hprice
      exact Or.inl ⟨htaker, hside, hpair.symm, huser.symm, hprice⟩
    | sell =>
      simp only [htaker, OrderSide.opposing, isPriceMatch, decide_eq_true_eq] at hside hprice
      exact Or.inr ⟨hside, htaker, hpair, huser, hprice⟩
  · rintro (⟨hbid, hask, hpair, huser, hprice⟩ | ⟨hbid, hask, hpair, huser, hprice⟩)
    · have htaker : taker.side = .buy := hbid
      refine ⟨hpair.symm, ?_, huser.symm, ?_⟩
      · rw [htaker]
        exact hask
      · rw [isPriceMatch, htaker]
        exact decide_eq_true hprice
    · have htaker : taker.side = .sell := hask
      refine ⟨hpair, ?_, huser, ?_⟩
      · rw [htaker]
        exact hbid
      · rw [isPriceMatch, htaker]
        exact decide_eq_true hprice

/-! ### The book after a transaction -/

/-- The book after a taker is matched and rests with what is left of it. -/
def placedBook (v : Valkey) (taker : Order) (book : Book) : Book :=
  let quantity := taker.remainingAmount
  let makers := makersFor v taker
  let rest := bookAfter quantity makers book
  if Outlasts quantity makers then
    Function.update rest taker.id
      (some { entryOf taker with remainingAmount := quantity - supply makers })
  else rest

theorem holds_reportTrades (h : Holds m.2 book) (trades : List MatchedTrade) :
    Holds (reportTrades trades m).2 book := by
  induction trades generalizing m with
  | nil => exact h
  | cons trade trades ih => exact ih h.nextSequence

theorem holds_executeMatch (h : Holds m.2 book) (hnew : book m.1.takerOrder.id = none)
    (htaker : 0 ≤ m.1.takerOrder.remainingAmount)
    (hremaining : m.1.currentTakerRemaining = m.1.takerOrder.remainingAmount) :
    Holds (executeMatch db tradeIds m).2 (placedBook m.2 m.1.takerOrder book) := by
  have hloop : matchOrders db tradeIds
      (m.2.getBestOpposingOrders m.1.takerOrder.pair m.1.takerOrder.side) m =
        fillAll db tradeIds (makersFor m.2 m.1.takerOrder) m := matchOrders_eq_fillAll
  have hfilled : Holds (fillAll db tradeIds (makersFor m.2 m.1.takerOrder) m).2
      (bookAfter m.1.takerOrder.remainingAmount (makersFor m.2 m.1.takerOrder) book) :=
    hremaining ▸ holds_fillAll h (nodup_makersFor h.namesKept _) (current_makersFor h)
  have hleft : (fillAll db tradeIds (makersFor m.2 m.1.takerOrder) m).1.currentTakerRemaining = _ :=
    fillAll_remaining (hremaining ▸ htaker)
  rw [hremaining] at hleft
  simp only [executeMatch, hloop, placedBook]
  by_cases hlast : Outlasts m.1.takerOrder.remainingAmount (makersFor m.2 m.1.takerOrder)
  · have hlt := hlast.supply_lt
    rw [if_pos hlast] at hleft
    rw [if_pos hlast, hleft, if_neg (by omega)]
    have hentry : (fillAll db tradeIds (makersFor m.2 m.1.takerOrder) m).1.restingEntry =
        { entryOf m.1.takerOrder with
          remainingAmount := m.1.takerOrder.remainingAmount -
            supply (makersFor m.2 m.1.takerOrder) } := by
      rw [UnitOfWork.restingEntry, hleft, fillAll_takerOrder]
      rfl
    rw [hentry]
    exact hfilled.addOrder ((bookAfter_of_notMem (notMem_makersFor h hnew)).trans hnew)
  · rw [if_neg hlast] at hleft
    rw [if_neg hlast, hleft, if_pos rfl]
    exact hfilled

theorem holds_placeOrder (h : Holds v book) (hnew : book taker.id = none)
    (htaker : 0 ≤ taker.remainingAmount) :
    Holds (placeOrder db tradeIds taker v).2 (placedBook v taker book) :=
  holds_reportTrades (holds_executeMatch h.nextSequence hnew htaker rfl) _

/-- What is left of two entries does not matter. -/
theorem crosses_remaining {bid ask : OrderbookEntry} {x y : ℤ} :
    Crosses { bid with remainingAmount := x } { ask with remainingAmount := y } ↔
      Crosses bid ask :=
  ⟨fun ⟨h₁, h₂, h₃, h₄, h₅⟩ => ⟨h₁, h₂, h₃, h₄, h₅⟩,
    fun ⟨h₁, h₂, h₃, h₄, h₅⟩ => ⟨h₁, h₂, h₃, h₄, h₅⟩⟩

theorem uncrossed_bookAfter (h : Holds v book) (huncrossed : Uncrossed book) (taker : Order)
    (quantity : ℤ) :
    Uncrossed (bookAfter quantity (makersFor v taker) book) := by
  intro bidId askId bid ask hbid hask hcrosses
  have hids := nodup_makersFor h.namesKept taker
  obtain ⟨bid', hbid', hbideq⟩ := bookAfter_eq_some hids (current_makersFor h) hbid
  obtain ⟨ask', hask', haskeq⟩ := bookAfter_eq_some hids (current_makersFor h) hask
  rw [hbideq, haskeq, crosses_remaining] at hcrosses
  exact huncrossed bidId askId bid' ask' hbid' hask' hcrosses

/-- A new order may rest if nothing opposes it. -/
theorem uncrossed_update_iff (huncrossed : Uncrossed book) (hnew : book taker.id = none)
    (left : ℤ) :
    Uncrossed (Function.update book taker.id
        (some { entryOf taker with remainingAmount := left })) ↔
      ∀ orderId e, book orderId = some e → ¬Opposes taker e := by
  have htaker (e : OrderbookEntry) : Opposes taker e ↔
      Crosses { entryOf taker with remainingAmount := left } e ∨
        Crosses e { entryOf taker with remainingAmount := left } :=
    opposes_iff_crosses.trans (or_congr crosses_remaining.symm crosses_remaining.symm)
  constructor
  · intro hkept orderId e he hopposes
    have hne : orderId ≠ taker.id := fun heq => by
      rw [heq, hnew] at he
      cases he
    have hplace := fun x => (Function.update_of_ne hne x book).trans he
    rcases (htaker e).mp hopposes with hcrosses | hcrosses
    · exact hkept taker.id orderId _ e (Function.update_self _ _ _) (hplace _) hcrosses
    · exact hkept orderId taker.id e _ (hplace _) (Function.update_self _ _ _) hcrosses
  · intro hnone bidId askId bid ask hbid hask hcrosses
    rw [Function.update_apply] at hbid hask
    split at hbid
    · obtain rfl := Option.some.inj hbid
      split at hask
      · obtain rfl := Option.some.inj hask
        exact absurd rfl hcrosses.users_ne
      · exact hnone askId ask hask ((htaker ask).mpr (Or.inl hcrosses))
    · split at hask
      · obtain rfl := Option.some.inj hask
        exact hnone bidId bid hbid ((htaker bid).mpr (Or.inr hcrosses))
      · exact huncrossed bidId askId bid ask hbid hask hcrosses

theorem mem_map_makersFor (h : Holds v book) (he : book e.orderId = some e) :
    e.orderId ∈ (makersFor v taker).map OrderbookEntry.orderId ↔ e ∈ makersFor v taker := by
  refine ⟨fun hmem => ?_, List.mem_map_of_mem⟩
  obtain ⟨maker, hmaker, heq⟩ := List.mem_map.mp hmem
  have hbook := (mem_makersFor h hmaker).1
  rw [heq, he] at hbook
  exact Option.some.inj hbook ▸ hmaker

/-- Of the entries that oppose a taker, those that were not in reach are left. -/
theorem opposing_bookAfter_iff {quantity : ℤ} (h : Holds v book)
    (hlast : Outlasts quantity (makersFor v taker)) :
    (∀ orderId e, bookAfter quantity (makersFor v taker) book orderId = some e →
        ¬Opposes taker e) ↔
      ∀ orderId e, book orderId = some e → Opposes taker e → e ∈ makersFor v taker := by
  have hids := nodup_makersFor h.namesKept taker
  constructor
  · intro hnone orderId e he hopposes
    by_contra hunreached
    obtain rfl := h.named orderId e he
    rw [← mem_map_makersFor h he] at hunreached
    exact hnone e.orderId e ((bookAfter_of_notMem hunreached).trans he) hopposes
  · intro hreached orderId e he hopposes
    obtain ⟨before, hbefore, heq⟩ := bookAfter_eq_some hids (current_makersFor h) he
    rw [heq] at hopposes
    have hmem := hreached orderId before hbefore
      ⟨hopposes.pair_eq, hopposes.side_eq, hopposes.user_ne, hopposes.price_match⟩
    have hgone : bookAfter quantity (makersFor v taker) book before.orderId = none :=
      bookAfter_of_outlasts hids hlast hmem
    rw [h.named orderId before hbefore, he] at hgone
    cases hgone

/-- The book is uncrossed after the taker unless it outlasts the makers in reach while
another order opposes it. -/
theorem uncrossed_placedBook_iff (h : Holds v book) (huncrossed : Uncrossed book)
    (hnew : book taker.id = none) : Uncrossed (placedBook v taker book) ↔
      (Outlasts taker.remainingAmount (makersFor v taker) → ∀ orderId e,
        book orderId = some e → Opposes taker e → e ∈ makersFor v taker) := by
  have hrest := uncrossed_bookAfter h huncrossed taker taker.remainingAmount
  by_cases hlast : Outlasts taker.remainingAmount (makersFor v taker)
  · have hunplaced : bookAfter taker.remainingAmount (makersFor v taker) book taker.id = none :=
      (bookAfter_of_notMem (notMem_makersFor h hnew)).trans hnew
    simp only [placedBook, if_pos hlast]
    exact (uncrossed_update_iff hrest hunplaced _).trans ((opposing_bookAfter_iff h hlast).trans
      ⟨fun hreached _ => hreached, fun hreached => hreached hlast⟩)
  · simp only [placedBook, if_neg hlast]
    exact ⟨fun _ h => absurd h hlast, fun _ => hrest⟩

/-! ### createOrder -/

/-- A call that runs alone leaves the book uncrossed unless it places an order that outlasts
the makers in reach while another order opposes it. -/
theorem uncrossed_createOrder_iff (request : ValidRequest) (h : Holds s.valkey book)
    (huncrossed : Uncrossed book) (hnew : book ids.orderId = none) :
    (∃ book', Holds (createOrder s request.val ids lockReply).1.valkey book' ∧
        Uncrossed book') ↔
      ∀ taker, placedOrder s request.val ids lockReply = some taker →
        Outlasts taker.remainingAmount (makersFor s.valkey taker) → ∀ orderId e,
          book orderId = some e → Opposes taker e → e ∈ makersFor s.valkey taker := by
  cases hplaced : placedOrder s request.val ids lockReply with
  | none =>
    rw [(createOrder_of_unplaced hplaced).2.2]
    refine iff_of_true ⟨book, h, huncrossed⟩ fun taker htaker => ?_
    cases htaker
  | some taker =>
    obtain ⟨hvalues, -⟩ := newOrder_of_placed hplaced
    rw [← OrdersTransactionSteps.newOrder_id hvalues] at hnew
    have htaker : 0 ≤ taker.remainingAmount := by
      obtain ⟨hamount, hremaining, -⟩ := OrderFillLaws.newOrder_amount hvalues
      omega
    have hholds : Holds (createOrder s request.val ids lockReply).1.valkey
        (placedBook s.valkey taker book) := by
      rw [createOrder_of_placed hplaced]
      exact holds_placeOrder h hnew htaker
    have hiff := uncrossed_placedBook_iff h huncrossed hnew
    constructor
    · rintro ⟨book', hbook', hkept⟩ other hother
      obtain rfl := Option.some.inj hother
      obtain rfl := hbook'.unique hholds
      exact hiff.mp hkept
    · intro hreached
      exact ⟨placedBook s.valkey taker book, hholds, hiff.mpr (hreached taker rfl)⟩

/-! ### A buyer behind its own asks -/

/-- An ask for one unit. -/
def ask (orderId userId : Uuid) : OrderbookEntry :=
  ⟨orderId, userId, ⟨.eth, .usdt⟩, .sell, .limit, 10000000000, 100000000, 100000000⟩

/-- So many asks of the buyer, and behind them one of another user. -/
def asks (ownAsks : ℕ) : List OrderbookEntry :=
  (List.range ownAsks).map (fun n => ask ("own" ++ toString n) "buyer") ++ [ask "z" "seller"]

def storeOf (entries : List OrderbookEntry) : OrdersStore :=
  ⟨.empty, Valkey.empty.rehydrate entries, [], 0⟩

theorem valid_buysOne :
    validateCreateOrderRequest (OrderFillLaws.limitOrder "buyer" .buy 100 1) = none := by
  decide +kernel

def buysOne : ValidRequest := ⟨OrderFillLaws.limitOrder "buyer" .buy 100 1, valid_buysOne⟩

def newIds : NewIds := ⟨"record", "taker", fun _ => "trade"⟩

theorem uncrossed_of_asks {entries : List OrderbookEntry} (h : ∀ e ∈ entries, e.side = .sell) :
    Uncrossed (lookup OrderbookEntry.orderId entries) := by
  intro bidId _ bid _ hbid _ hcrosses
  have hside := h bid (lookup_mem hbid).1
  rw [hcrosses.bid_side] at hside
  cases hside

theorem placedOrder_asks :
    (placedOrder (storeOf (asks 1)) buysOne.val newIds .ok).isSome = true := by decide +kernel

/-- The buyer takes the ask of the other user and does not rest. -/
theorem uncrossed_createOrder_asks : ∃ book,
    Holds (createOrder (storeOf (asks 1)) buysOne.val newIds .ok).1.valkey book ∧
      Uncrossed book := by
  refine (uncrossed_createOrder_iff buysOne (holds_rehydrate (asks 1)
    (by unfold KeyUnique; decide)) (uncrossed_of_asks (by decide)) (by decide)).mpr fun taker htaker hlast => ?_
  rw [← Option.get_of_eq_some placedOrder_asks htaker] at hlast
  exact absurd hlast (by decide +kernel)

/-- The fifty asks that are read are the buyer's own: it rests above the one behind them. -/
theorem crossed_behindOwnAsks : ¬∀ (s : OrdersStore) (request : ValidRequest) ids lockReply book,
    Holds s.valkey book → Uncrossed book → book ids.orderId = none →
      ∃ book', Holds (createOrder s request.val ids lockReply).1.valkey book' ∧
        Uncrossed book' := by
  intro h
  obtain ⟨book, hbook, hkept⟩ := h (storeOf (asks 50)) buysOne newIds .ok _
    (holds_rehydrate (asks 50) (by unfold KeyUnique; decide +kernel))
    (uncrossed_of_asks (by decide +kernel)) (by decide +kernel)
  have hcrossed : ((createOrder (storeOf (asks 50)) buysOne.val newIds .ok).1.valkey.getOrderDetails
      "taker", (createOrder (storeOf (asks 50)) buysOne.val newIds .ok).1.valkey.getOrderDetails
        "z") = (some ⟨"taker", "buyer", ⟨.eth, .usdt⟩, .buy, .limit, 10000000000, 100000000,
          100000000⟩, some (ask "z" "seller")) := by decide +kernel
  rw [hbook.getOrderDetails, hbook.getOrderDetails, Prod.mk.injEq] at hcrossed
  exact hkept "taker" "z" _ _ hcrossed.1 hcrossed.2 ⟨rfl, rfl, rfl, by decide, le_refl _⟩

end EtherTrade.UncrossedBookLaws
