import EtherTrade.MatchingLoop
import EtherTrade.OrderFillLaws

/-!
# Price-time priority

Whether the makers a taker trades with come in the order of price and age. The sorted set
of the opposing side fixes the order in which they are read; its reversal for a seller
also reverses the orders of one price.
-/

namespace EtherTrade.PriceTimeLaws

open KeyedRows AccountsSchema OrdersSchema OrderBook MatchingEngine OrdersTransactions
open SequentialOrders RestingOrders MatchingLoop
open TradeSettlement (TradingSymbol)

/-- The operations on an order book. -/
inductive BookCommand where
  | addOrder (entry : OrderbookEntry)
  | updateRemainingAmount (orderId : Uuid) (remainingAmount : ℤ)
  | removeOrder (orderId : Uuid) (pair : TradingSymbol) (side : OrderSide)
  deriving DecidableEq, Repr

def BookCommand.run (v : Valkey) : BookCommand → Valkey
  | .addOrder entry => v.addOrder entry
  | .updateRemainingAmount orderId remainingAmount =>
    v.updateRemainingAmount orderId remainingAmount
  | .removeOrder orderId pair side => v.removeOrder orderId pair side

def built (commands : List BookCommand) : Valkey := commands.foldl BookCommand.run .empty

variable {v : Valkey} {taker : Order} {m o : OrderbookEntry} {orderId : Uuid}

theorem namesKept_run (h : NamesKept v) (command : BookCommand) : NamesKept (command.run v) := by
  intro orderId entry hentry
  have hold := h orderId
  unfold Valkey.getOrderDetails at hold hentry
  cases command with
  | addOrder added =>
    have hset : ((BookCommand.addOrder added).run v).orderDetails =
        Function.update v.orderDetails added.orderId (.full added) := rfl
    rw [hset] at hentry
    by_cases hid : orderId = added.orderId
    · subst hid
      rw [Function.update_self] at hentry
      rw [Option.some.inj hentry]
    · rw [Function.update_of_ne hid] at hentry
      exact hold entry hentry
  | updateRemainingAmount changed remainingAmount =>
    simp only [BookCommand.run, Valkey.updateRemainingAmount] at hentry
    by_cases hid : orderId = changed
    · subst hid
      rw [Function.update_self] at hentry
      cases hdetails : v.orderDetails orderId with
      | full old =>
        rw [hdetails] at hentry hold
        obtain rfl := Option.some.inj hentry
        exact hold old rfl
      | _ =>
        rw [hdetails] at hentry
        cases hentry
    · rw [Function.update_of_ne hid] at hentry
      exact hold entry hentry
  | removeOrder removed pair side =>
    have hset : ((BookCommand.removeOrder removed pair side).run v).orderDetails =
        Function.update v.orderDetails removed .missing := rfl
    rw [hset] at hentry
    by_cases hid : orderId = removed
    · subst hid
      rw [Function.update_self] at hentry
      cases hentry
    · rw [Function.update_of_ne hid] at hentry
      exact hold entry hentry

theorem namesKept_built (commands : List BookCommand) : NamesKept (built commands) := by
  have hrun (v : Valkey) (h : NamesKept v) : NamesKept (commands.foldl BookCommand.run v) := by
    induction commands generalizing v with
    | nil => exact h
    | cons command commands ih => exact ih _ (namesKept_run h command)
  exact hrun .empty fun _ _ h => by cases h

/-! ### Priority -/

/-- A better price for the taker, or the same price and an earlier id. -/
def Prior (takerSide : OrderSide) (o m : OrderbookEntry) : Prop :=
  (match takerSide with
    | .buy => o.price < m.price
    | .sell => m.price < o.price) ∨ o.price = m.price ∧ o.orderId < m.orderId

instance (takerSide : OrderSide) (o m : OrderbookEntry) : Decidable (Prior takerSide o m) := by
  unfold Prior
  cases takerSide <;> infer_instance

theorem Prior.ne {takerSide : OrderSide} (h : Prior takerSide o m) : o ≠ m := by
  rintro rfl
  cases takerSide <;> rcases h with h | ⟨-, h⟩ <;> exact lt_irrefl _ h

/-- What a match leaves of an order. -/
def unfilled (trades : List MatchedTrade) (o : OrderbookEntry) : ℤ :=
  o.remainingAmount - (tradedWith trades o.orderId).sum

/-- Nothing is left of an order with priority over one that was traded with. -/
def PriceTimePriority (v : Valkey) (taker : Order) (trades : List MatchedTrade) : Prop :=
  ∀ m ∈ othersOrders v taker, ∀ o ∈ othersOrders v taker, Prior taker.side o m →
    tradedWith trades m.orderId ≠ [] → unfilled trades o ≤ 0

instance (v : Valkey) (taker : Order) (trades : List MatchedTrade) :
    Decidable (PriceTimePriority v taker trades) := inferInstanceAs (Decidable (∀ _ ∈ _, _))

/-- The taker has a quantity left when the turn of an order comes. -/
def Met (v : Valkey) (taker : Order) (m : OrderbookEntry) : Prop :=
  m ∈ makersFor v taker ∧ Outlasts taker.remainingAmount (ahead (makersFor v taker) m)

instance (v : Valkey) (taker : Order) (m : OrderbookEntry) : Decidable (Met v taker m) :=
  inferInstanceAs (Decidable (_ ∧ _))

/-- The taker's quantity covers an order and the makers ahead of it. -/
def Covered (v : Valkey) (taker : Order) (o : OrderbookEntry) : Prop :=
  o.remainingAmount ≤ 0 ∨ Met v taker o ∧
    supply (ahead (makersFor v taker) o) + o.remainingAmount ≤ taker.remainingAmount

instance (v : Valkey) (taker : Order) (o : OrderbookEntry) : Decidable (Covered v taker o) :=
  inferInstanceAs (Decidable (_ ∨ _))

/-- An order that is read after one it has priority over is covered if the other one is met. -/
def LaterCovered (v : Valkey) (taker : Order) : Prop :=
  ∀ m ∈ othersOrders v taker, ∀ o ∈ othersOrders v taker, m ∈ ahead (othersOrders v taker) o →
    Prior taker.side o m → Met v taker m → Covered v taker o

instance (v : Valkey) (taker : Order) : Decidable (LaterCovered v taker) :=
  inferInstanceAs (Decidable (∀ _ ∈ _, _))

/-! ### The match -/

theorem ahead_makersFor (hm : m ∈ makersFor v taker) :
    ahead (othersOrders v taker) m = ahead (makersFor v taker) m := by
  obtain ⟨rest, hrest⟩ := makersFor_isInitial v taker
  rw [← hrest, ahead_append hm]

/-- An order that is met has a trade for its share, and no other order has one. -/
theorem tradedWith_executeMatch (db : OrdersDb) (tradeIds : ℕ → Uuid) (hnames : NamesKept v)
    (htaker : 0 ≤ taker.remainingAmount) (hm : m ∈ othersOrders v taker) :
    tradedWith (executeMatch db tradeIds (.start taker, v)).1.trades m.orderId =
      if Met v taker m then [share taker.remainingAmount (makersFor v taker) m] else [] := by
  have htrades : (executeMatch db tradeIds (.start taker, v)).1.trades =
      (fillAll db tradeIds (makersFor v taker) (.start taker, v)).1.trades := by
    rw [executeMatch, matchOrders_eq_fillAll]
    rfl
  have hnone : tradedWith (UnitOfWork.start taker).trades m.orderId = [] := rfl
  rw [htrades]
  by_cases hmaker : m ∈ makersFor v taker
  · rw [tradedWith_fillAll (nodup_makersFor hnames taker) hmaker htaker, hnone, List.nil_append]
    by_cases hlast : Outlasts taker.remainingAmount (ahead (makersFor v taker) m)
    · exact (if_pos hlast).trans (if_pos ⟨hmaker, hlast⟩).symm
    · exact (if_neg hlast).trans (if_neg fun h => hlast h.2).symm
  · have hid : m.orderId ∉ (makersFor v taker).map OrderbookEntry.orderId := by
      intro hmem
      obtain ⟨e, he, heq⟩ := List.mem_map.mp hmem
      have hsame := KeyUnique.eq (nodup_othersOrders hnames taker) ((makersFor_isInitial v taker).subset he) hm heq
      exact hmaker (hsame ▸ he)
    rw [tradedWith_fillAll_of_notMem hid, hnone, if_neg fun h => hmaker h.1]

theorem unfilled_nonpos_iff {trades : List MatchedTrade}
    (htrades : tradedWith trades o.orderId =
      if Met v taker o then [share taker.remainingAmount (makersFor v taker) o] else []) :
    unfilled trades o ≤ 0 ↔ Covered v taker o := by
  rw [unfilled, htrades, Covered]
  split
  · next hmet =>
    have hpos := hmet.2.supply_lt
    rw [List.sum_singleton, share]
    constructor
    · intro h
      exact Or.inr ⟨hmet, by omega⟩
    · rintro (h | ⟨-, h⟩) <;> omega
  · next hunmet =>
    rw [List.sum_nil, sub_zero]
    exact ⟨Or.inl, fun h => h.resolve_right fun h => hunmet h.1⟩

/-- Priority is kept if and only if every order that has priority over one read before it is
covered whenever the other one is met. -/
theorem priceTimePriority_iff (commands : List BookCommand) (request : ValidRequest)
    (hnew : newOrder request.val orderId = some taker) (db : OrdersDb) (tradeIds : ℕ → Uuid) :
    PriceTimePriority (built commands) taker
        (executeMatch db tradeIds (.start taker, built commands)).1.trades ↔
      LaterCovered (built commands) taker := by
  have hnames := namesKept_built commands
  have htaker : 0 ≤ taker.remainingAmount := by
    obtain ⟨hamount, hremaining, -⟩ := OrderFillLaws.newOrder_amount hnew
    omega
  have htraded (m : OrderbookEntry) (hm : m ∈ othersOrders (built commands) taker) :=
    tradedWith_executeMatch db tradeIds hnames htaker hm
  have hmet (m : OrderbookEntry) (hm : m ∈ othersOrders (built commands) taker) :
      tradedWith (executeMatch db tradeIds (.start taker, built commands)).1.trades m.orderId ≠
        [] ↔ Met (built commands) taker m := by
    rw [htraded m hm]
    split <;> simp [*]
  constructor
  · intro h m hm o ho _ hprior hmetm
    exact (unfilled_nonpos_iff (htraded o ho)).mp (h m hm o ho hprior ((hmet m hm).mpr hmetm))
  · intro h m hm o ho hprior hfilled
    have hmetm := (hmet m hm).mp hfilled
    refine (unfilled_nonpos_iff (htraded o ho)).mpr ?_
    rcases mem_ahead_or ho hm hprior.ne with hbefore | hafter
    · -- an order read before one that is met is covered
      rw [ahead_makersFor hmetm.1] at hbefore
      obtain ⟨hlast, hlt⟩ := hmetm.2.of_ahead hbefore
      exact Or.inr ⟨⟨(List.takeWhile_prefix _).subset hbefore, hlast⟩, hlt.le⟩
    · exact h m hm o ho hafter hprior hmetm

/-! ### Two bids at one price -/

/-- A bid for one unit. -/
def bid (orderId userId : Uuid) : OrderbookEntry :=
  ⟨orderId, userId, ⟨.eth, .usdt⟩, .buy, .limit, 10000000000, 100000000, 100000000⟩

/-- The bid of the second user is the newer one. -/
def equalBids : List BookCommand := [.addOrder (bid "a" "first"), .addOrder (bid "b" "second")]

def sellsOne : ValidRequest :=
  ⟨OrderFillLaws.limitOrder "seller" .sell 100 1, by decide +kernel⟩

def sellsTwo : ValidRequest :=
  ⟨OrderFillLaws.limitOrder "seller" .sell 100 2, by decide +kernel⟩

theorem newOrder_sellsOne : (newOrder sellsOne.val "t").isSome = true := by decide +kernel

theorem newOrder_sellsTwo : (newOrder sellsTwo.val "t").isSome = true := by decide +kernel

/-- A seller of two units takes both bids. -/
theorem priceTimePriority_iff_equalBids :
    let taker := (newOrder sellsTwo.val "t").get newOrder_sellsTwo
    PriceTimePriority (built equalBids) taker
      (executeMatch .empty (fun _ => "u") (.start taker, built equalBids)).1.trades :=
  (priceTimePriority_iff equalBids sellsTwo (Option.some_get _).symm .empty fun _ => "u").mpr
    (by decide +kernel)

/-- A seller of one unit takes the newer bid and leaves the older one. -/
theorem priority_reversed_equalBids : ¬∀ commands (request : ValidRequest) orderId taker,
    newOrder request.val orderId = some taker → ∀ db tradeIds,
      PriceTimePriority (built commands) taker
        (executeMatch db tradeIds (.start taker, built commands)).1.trades := by
  intro h
  have hkept := h equalBids sellsOne "t" _ (Option.some_get newOrder_sellsOne).symm .empty
    fun _ => "u"
  exact absurd hkept (by decide +kernel)

end EtherTrade.PriceTimeLaws
