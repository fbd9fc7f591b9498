import Mathlib.Algebra.Order.BigOperators.Group.List
import EtherTrade.RestingOrders
import EtherTrade.SequentialOrders

/-!
# The matching loop as a sum

Without the orders it skips and those it does not reach, the loop of `executeMatch` goes
through a list of makers and gives each what the ones ahead of it have left of the
taker's quantity. What it trades and what it leaves in the book are sums over that list.
-/

namespace EtherTrade.MatchingLoop

open KeyedRows AccountsSchema OrdersSchema OrderBook MatchingEngine SequentialOrders RestingOrders

variable {db : OrdersDb} {tradeIds : ℕ → Uuid} {m : Matching} {w : UnitOfWork} {v : Valkey}
  {taker : Order} {book : Book} {maker e : OrderbookEntry} {makers entries : List OrderbookEntry}
  {quantity : ℤ} {orderId : Uuid} {β : Type} {f : Matching → β}

/-- The makers whose turn can come: orders of other users, up to the first price that does
not cross. -/
def reachable (takerOrder : Order) (entries : List OrderbookEntry) : List OrderbookEntry :=
  (entries.filter fun maker => maker.userId ≠ takerOrder.userId).takeWhile
    (isPriceMatch takerOrder)

/-- The loop over makers that all are to be matched. -/
def fillAll (db : OrdersDb) (tradeIds : ℕ → Uuid) : List OrderbookEntry → Matching → Matching
  | [], m => m
  | maker :: makers, m =>
    if m.1.currentTakerRemaining = 0 then m
    else fillAll db tradeIds makers (fillMaker db tradeIds maker m)

theorem fillAll_filled (h : m.1.currentTakerRemaining = 0) :
    fillAll db tradeIds makers m = m := by
  cases makers with
  | nil => rfl
  | cons maker makers => rw [fillAll, if_pos h]

theorem matchOrders_eq_fillAll : matchOrders db tradeIds entries m =
    fillAll db tradeIds (reachable m.1.takerOrder entries) m := by
  induction entries generalizing m with
  | nil => rfl
  | cons maker entries ih =>
    rw [matchOrders]
    split
    · next hfilled => exact (fillAll_filled hfilled).symm
    · next hopen =>
      split
      · next hself =>
        rw [ih, reachable, reachable, List.filter_cons_of_neg (by simpa using hself)]
      · next hother =>
        rw [reachable, List.filter_cons_of_pos (by simpa using hother), List.takeWhile_cons]
        split
        · rw [fillAll, if_neg hopen, ih]
          rfl
        · rfl

/-- The makers in reach of a taker. -/
def makersFor (v : Valkey) (taker : Order) : List OrderbookEntry :=
  reachable taker (v.getBestOpposingOrders taker.pair taker.side)

/-- The opposing orders of other users, in the order in which they are read. -/
def othersOrders (v : Valkey) (taker : Order) : List OrderbookEntry :=
  (opposingOrders v taker.pair taker.side).filter fun maker => maker.userId ≠ taker.userId

theorem makersFor_isInitial (v : Valkey) (taker : Order) :
    makersFor v taker <+: othersOrders v taker :=
  (List.takeWhile_prefix _).trans
    ((getBestOpposingOrders_isInitial v taker.pair taker.side).filter _)

theorem nodup_othersOrders (h : NamesKept v) (taker : Order) :
    ((othersOrders v taker).map OrderbookEntry.orderId).Nodup :=
  (nodup_opposingOrders h).sublist (List.filter_sublist.map _)

theorem nodup_makersFor (h : NamesKept v) (taker : Order) :
    ((makersFor v taker).map OrderbookEntry.orderId).Nodup :=
  (nodup_othersOrders h taker).sublist ((makersFor_isInitial v taker).sublist.map _)

/-- An entry of another user whose price satisfies the limit of a taker. -/
structure Opposes (taker : Order) (e : OrderbookEntry) : Prop where
  pair_eq : e.pair = taker.pair
  side_eq : e.side = taker.side.opposing
  user_ne : e.userId ≠ taker.userId
  price_match : isPriceMatch taker e = true

/-- The makers in reach are in the book, and oppose the taker. -/
theorem mem_makersFor (h : Holds v book) (he : e ∈ makersFor v taker) :
    book e.orderId = some e ∧ Opposes taker e := by
  obtain ⟨hmem, huser⟩ := List.mem_filter.mp ((makersFor_isInitial v taker).subset he)
  obtain ⟨hbook, hpair, hside⟩ := h.mem_opposingOrders.mp hmem
  exact ⟨hbook, hpair, hside, by simpa using huser, List.all_eq_true.mp List.all_takeWhile e he⟩

/-! ### Quantities -/

/-- What the makers offer in total. -/
def supply (makers : List OrderbookEntry) : ℤ := (makers.map OrderbookEntry.remainingAmount).sum

/-- The quantity is more than the makers offer, one after the other. -/
def Outlasts (quantity : ℤ) : List OrderbookEntry → Prop
  | [] => 0 < quantity
  | maker :: makers => 0 < quantity ∧ Outlasts (quantity - maker.remainingAmount) makers

instance : ∀ (quantity : ℤ) (makers : List OrderbookEntry), Decidable (Outlasts quantity makers)
  | quantity, [] => inferInstanceAs (Decidable (0 < quantity))
  | quantity, maker :: makers =>
    haveI := instDecidableOutlasts (quantity - maker.remainingAmount) makers
    inferInstanceAs (Decidable (0 < quantity ∧ _))

theorem supply_cons : supply (maker :: makers) = maker.remainingAmount + supply makers := by
  simp [supply]

theorem Outlasts.pos (h : Outlasts quantity makers) : 0 < quantity := by
  cases makers with
  | nil => exact h
  | cons maker makers => exact h.1

/-- Some of the quantity is left in the end. -/
theorem Outlasts.supply_lt (h : Outlasts quantity makers) : supply makers < quantity := by
  induction makers generalizing quantity with
  | nil => exact h
  | cons maker makers ih =>
    have hrest := ih h.2
    rw [supply_cons]
    omega

/-- The makers ahead of one. -/
def ahead (makers : List OrderbookEntry) (maker : OrderbookEntry) : List OrderbookEntry :=
  makers.takeWhile fun other => other ≠ maker

theorem ahead_self : ahead (maker :: makers) maker = [] := by simp [ahead]

theorem ahead_cons (h : maker ≠ e) : ahead (maker :: makers) e = maker :: ahead makers e := by
  simp [ahead, h]

theorem mem_ahead_or (he : e ∈ makers) (hmaker : maker ∈ makers) (hne : e ≠ maker) :
    e ∈ ahead makers maker ∨ maker ∈ ahead makers e := by
  induction makers with
  | nil => exact absurd he List.not_mem_nil
  | cons first makers ih =>
    by_cases hfirst : first = e
    · subst hfirst
      left
      rw [ahead_cons hne]
      exact List.mem_cons_self
    · by_cases hsecond : first = maker
      · subst hsecond
        right
        rw [ahead_cons hfirst]
        exact List.mem_cons_self
      · rw [ahead_cons hfirst, ahead_cons hsecond]
        have he' := (List.mem_cons.mp he).resolve_left (Ne.symm hfirst)
        have hmaker' := (List.mem_cons.mp hmaker).resolve_left (Ne.symm hsecond)
        exact (ih he' hmaker').imp (List.mem_cons_of_mem _) (List.mem_cons_of_mem _)

theorem ahead_append (he : e ∈ makers) : ahead (makers ++ entries) e = ahead makers e := by
  induction makers with
  | nil => exact absurd he List.not_mem_nil
  | cons first makers ih =>
    by_cases hfirst : first = e
    · subst hfirst
      rw [List.cons_append, ahead_self, ahead_self]
    · have he' := (List.mem_cons.mp he).resolve_left (Ne.symm hfirst)
      rw [List.cons_append, ahead_cons hfirst, ahead_cons hfirst, ih he']

/-- A quantity that outlasts the makers covers each of them. -/
theorem Outlasts.of_mem (h : Outlasts quantity makers) (he : e ∈ makers) :
    Outlasts quantity (ahead makers e) ∧
      supply (ahead makers e) + e.remainingAmount < quantity := by
  induction makers generalizing quantity with
  | nil => exact absurd he List.not_mem_nil
  | cons maker makers ih =>
    by_cases hself : maker = e
    · subst hself
      have hpos := h.2.pos
      rw [ahead_self, supply, List.map_nil, List.sum_nil]
      exact ⟨h.1, by omega⟩
    · obtain ⟨hlast, hlt⟩ := ih h.2 ((List.mem_cons.mp he).resolve_left (Ne.symm hself))
      rw [ahead_cons hself, supply_cons]
      exact ⟨⟨h.1, hlast⟩, by omega⟩

/-- A quantity that lasts until the turn of a maker covers the ones ahead. -/
theorem Outlasts.of_ahead (h : Outlasts quantity (ahead makers maker)) (he : e ∈ ahead makers maker) :
    Outlasts quantity (ahead makers e) ∧ supply (ahead makers e) + e.remainingAmount < quantity := by
  have hinitial : ahead makers maker <+: makers := List.takeWhile_prefix _
  obtain ⟨rest, hrest⟩ := hinitial
  have hahead : ahead makers e = ahead (ahead makers maker) e := by
    conv_lhs => rw [← hrest]
    exact ahead_append he
  rw [hahead]
  exact h.of_mem he

/-- What a maker gets of the quantity. -/
def share (quantity : ℤ) (makers : List OrderbookEntry) (maker : OrderbookEntry) : ℤ :=
  min (quantity - supply (ahead makers maker)) maker.remainingAmount

/-- What is left of a quantity after one maker. -/
def leftBy (quantity : ℤ) (maker : OrderbookEntry) : ℤ :=
  quantity - min quantity maker.remainingAmount

theorem leftBy_nonneg : 0 ≤ leftBy quantity maker := by
  unfold leftBy
  omega

/-- A quantity that a maker exhausts does not outlast it. -/
theorem outlasts_leftBy :
    Outlasts (leftBy quantity maker) makers ↔ Outlasts (quantity - maker.remainingAmount) makers := by
  unfold leftBy
  by_cases h : maker.remainingAmount ≤ quantity
  · rw [min_eq_right h]
  · have hneg : quantity - maker.remainingAmount < 0 := by omega
    rw [min_eq_left (by omega), sub_self]
    exact ⟨fun h => absurd h.pos (lt_irrefl 0), fun h => absurd h.pos (by omega)⟩

theorem leftBy_eq (h : Outlasts (leftBy quantity maker) makers) :
    leftBy quantity maker = quantity - maker.remainingAmount := by
  have hpos := h.pos
  unfold leftBy at hpos ⊢
  omega

/-! ### The trades -/

theorem fillMaker_remaining : (fillMaker db tradeIds maker m).1.currentTakerRemaining =
    leftBy m.1.currentTakerRemaining maker := rfl

/-- What no match changes is as before. -/
theorem fillAll_of_kept (hkept : ∀ maker ∈ makers, ∀ m, f (fillMaker db tradeIds maker m) = f m) :
    f (fillAll db tradeIds makers m) = f m := by
  induction makers generalizing m with
  | nil => rfl
  | cons maker makers ih =>
    rw [fillAll]
    split
    · rfl
    · rw [ih fun other hother => hkept other (List.mem_cons_of_mem _ hother)]
      exact hkept maker List.mem_cons_self m

/-- What only the match of one maker changes is changed in its turn, if that comes. -/
theorem fillAll_turn (hids : (makers.map OrderbookEntry.orderId).Nodup) (he : e ∈ makers)
    (hpos : 0 ≤ m.1.currentTakerRemaining)
    (hkept : ∀ maker m, e.orderId ≠ maker.orderId → f (fillMaker db tradeIds maker m) = f m) :
    (¬Outlasts m.1.currentTakerRemaining (ahead makers e) ∧
        f (fillAll db tradeIds makers m) = f m) ∨
      (Outlasts m.1.currentTakerRemaining (ahead makers e) ∧ ∃ turn : Matching, f turn = f m ∧
        turn.1.takerOrder = m.1.takerOrder ∧
          turn.1.matchAmount e = share m.1.currentTakerRemaining makers e ∧
            f (fillAll db tradeIds makers m) = f (fillMaker db tradeIds e turn)) := by
  induction makers generalizing m with
  | nil => exact absurd he List.not_mem_nil
  | cons maker makers ih =>
    rw [List.map_cons, List.nodup_cons] at hids
    rw [fillAll]
    by_cases hself : maker = e
    · subst hself
      rw [ahead_self]
      split
      · next hzero => exact Or.inl ⟨fun hlast => absurd hlast (by simp [Outlasts, hzero]), rfl⟩
      · next hopen =>
        refine Or.inr ⟨lt_of_le_of_ne hpos (Ne.symm hopen), m, rfl, rfl, ?_, ?_⟩
        · simp [UnitOfWork.matchAmount, share, ahead_self, supply]
        · refine fillAll_of_kept fun other hother other' => hkept other other' fun heq => ?_
          exact hids.1 (heq ▸ List.mem_map_of_mem hother)
    · have hmem : e ∈ makers := (List.mem_cons.mp he).resolve_left (Ne.symm hself)
      have hne : e.orderId ≠ maker.orderId := fun h => hids.1 (h ▸ List.mem_map_of_mem hmem)
      rw [ahead_cons hself]
      split
      · next hzero => exact Or.inl ⟨fun hlast => absurd hlast.1 (by omega), rfl⟩
      · next hopen =>
        have hlt : 0 < m.1.currentTakerRemaining := lt_of_le_of_ne hpos (Ne.symm hopen)
        have hfirst := hkept maker m hne
        rcases ih hids.2 hmem (m := fillMaker db tradeIds maker m) leftBy_nonneg with
          ⟨hlast, heq⟩ | ⟨hlast, turn, hturn, htaker, hamount, heq⟩
        · exact Or.inl ⟨fun h => hlast (outlasts_leftBy.mpr h.2), heq.trans hfirst⟩
        · have hleft := leftBy_eq hlast
          refine Or.inr ⟨⟨hlt, outlasts_leftBy.mp hlast⟩, turn, hturn.trans hfirst, htaker, ?_, heq⟩
          rw [hamount, fillMaker_remaining, share, share, ahead_cons hself, supply_cons, hleft,
            sub_sub]

theorem fillAll_takerOrder : (fillAll db tradeIds makers m).1.takerOrder = m.1.takerOrder :=
  fillAll_of_kept (f := fun m => m.1.takerOrder) fun _ _ _ => rfl

/-- The taker's quantity less what the makers offer, if it outlasts them. -/
theorem fillAll_remaining (h : 0 ≤ m.1.currentTakerRemaining) :
    (fillAll db tradeIds makers m).1.currentTakerRemaining =
      if Outlasts m.1.currentTakerRemaining makers then
        m.1.currentTakerRemaining - supply makers else 0 := by
  induction makers generalizing m with
  | nil =>
    rw [fillAll, supply, List.map_nil, List.sum_nil, sub_zero]
    split
    · rfl
    · next hzero =>
      have hle := not_lt.mp hzero
      omega
  | cons maker makers ih =>
    rw [fillAll]
    split
    · next hzero =>
      rw [hzero, if_neg fun hlast => absurd hlast.1 (lt_irrefl 0)]
    · next hopen =>
      have hpos : 0 < m.1.currentTakerRemaining := by omega
      rw [ih leftBy_nonneg, fillMaker_remaining]
      by_cases hlast : Outlasts (leftBy m.1.currentTakerRemaining maker) makers
      · rw [if_pos hlast, if_pos ⟨hpos, outlasts_leftBy.mp hlast⟩, leftBy_eq hlast, supply_cons]
        omega
      · rw [if_neg hlast, if_neg fun h => hlast (outlasts_leftBy.mpr h.2)]

/-- The quantities traded with an order as maker. -/
def tradedWith (trades : List MatchedTrade) (orderId : Uuid) : List ℤ :=
  (trades.filter fun trade => trade.makerOrderId = orderId).map MatchedTrade.quantity

theorem tradedWith_fillMaker : tradedWith (fillMaker db tradeIds maker m).1.trades orderId =
    tradedWith m.1.trades orderId ++
      if maker.orderId = orderId then [min m.1.currentTakerRemaining maker.remainingAmount]
      else [] := by
  have htrades : (fillMaker db tradeIds maker m).1.trades = m.1.trades ++
      [matchedTrade m.1.takerOrder maker (m.1.matchAmount maker) (tradeIds m.1.trades.length)] := rfl
  rw [htrades, tradedWith, List.filter_append, List.map_append, ← tradedWith]
  by_cases h : maker.orderId = orderId
  · rw [if_pos h, List.filter_singleton]
    simp [matchedTrade, h, UnitOfWork.matchAmount]
  · simp [matchedTrade, h]

theorem tradedWith_fillMaker_of_ne (h : orderId ≠ maker.orderId) :
    tradedWith (fillMaker db tradeIds maker m).1.trades orderId = tradedWith m.1.trades orderId := by
  rw [tradedWith_fillMaker, if_neg h.symm, List.append_nil]

theorem tradedWith_fillAll_of_notMem (h : orderId ∉ makers.map OrderbookEntry.orderId) :
    tradedWith (fillAll db tradeIds makers m).1.trades orderId = tradedWith m.1.trades orderId :=
  fillAll_of_kept (f := fun m => tradedWith m.1.trades orderId) fun _ hmaker _ =>
    tradedWith_fillMaker_of_ne fun heq => h (heq ▸ List.mem_map_of_mem hmaker)

/-- A maker is traded with once, for its share, if the quantity outlasts the makers ahead. -/
theorem tradedWith_fillAll (hids : (makers.map OrderbookEntry.orderId).Nodup) (he : e ∈ makers)
    (hpos : 0 ≤ m.1.currentTakerRemaining) :
    tradedWith (fillAll db tradeIds makers m).1.trades e.orderId =
      tradedWith m.1.trades e.orderId ++
        if Outlasts m.1.currentTakerRemaining (ahead makers e) then
          [share m.1.currentTakerRemaining makers e] else [] := by
  rcases fillAll_turn (f := fun m => tradedWith m.1.trades e.orderId) hids he hpos
      fun _ _ hne => tradedWith_fillMaker_of_ne hne with
    ⟨hlast, heq⟩ | ⟨hlast, turn, hturn, -, hamount, heq⟩
  · rw [if_neg hlast, List.append_nil]
    exact heq
  · rw [if_pos hlast, ← hamount]
    refine heq.trans (tradedWith_fillMaker.trans ?_)
    rw [if_pos rfl]
    exact congrArg (· ++ _) hturn

/-! ### The book -/

/-- The book after a quantity of an entry is traded. -/
def takeFrom (book : Book) (maker : OrderbookEntry) (quantity : ℤ) : Book :=
  Function.update book maker.orderId <|
    if maker.remainingAmount - quantity = 0 then none
    else some { maker with remainingAmount := maker.remainingAmount - quantity }

theorem holds_updateBook (h : Holds v book) (hmaker : book maker.orderId = some maker)
    (hside : maker.side = w.takerOrder.side.opposing) :
    Holds (updateBook w maker v) (takeFrom book maker (w.matchAmount maker)) := by
  have hstatus : w.makerStatus maker = .filled ↔
      maker.remainingAmount - w.matchAmount maker = 0 := by
    unfold UnitOfWork.makerStatus UnitOfWork.newMakerRemaining
    split <;> simp [*]
  rw [updateBook, takeFrom]
  by_cases hfilled : maker.remainingAmount - w.matchAmount maker = 0
  · rw [if_pos (hstatus.mpr hfilled), if_pos hfilled]
    refine h.removeOrder fun e he => ?_
    rw [hmaker] at he
    obtain rfl := Option.some.inj he
    exact ⟨rfl, hside⟩
  · rw [if_neg fun hs => hfilled (hstatus.mp hs), if_neg hfilled]
    exact h.updateRemainingAmount hmaker

/-- The book after the loop. -/
def bookAfter : ℤ → List OrderbookEntry → Book → Book
  | _, [], book => book
  | quantity, maker :: makers, book =>
    if quantity = 0 then book
    else bookAfter (leftBy quantity maker) makers
      (takeFrom book maker (min quantity maker.remainingAmount))

/-- The entries that the loop goes through are those of the book. -/
def Current (book : Book) (takerSide : OrderSide) (makers : List OrderbookEntry) : Prop :=
  ∀ e ∈ makers, book e.orderId = some e ∧ e.side = takerSide.opposing

theorem current_makersFor (h : Holds v book) : Current book taker.side (makersFor v taker) :=
  fun _ he => ⟨(mem_makersFor h he).1, (mem_makersFor h he).2.side_eq⟩

theorem notMem_makersFor {orderId : Uuid} (h : Holds v book) (hnone : book orderId = none) :
    orderId ∉ (makersFor v taker).map OrderbookEntry.orderId := by
  intro hmem
  obtain ⟨maker, hmaker, heq⟩ := List.mem_map.mp hmem
  have hbook := (mem_makersFor h hmaker).1
  rw [heq, hnone] at hbook
  cases hbook

theorem Current.takeFrom {takerSide : OrderSide} (h : Current book takerSide (maker :: makers))
    (hids : maker.orderId ∉ makers.map OrderbookEntry.orderId) :
    Current (takeFrom book maker quantity) takerSide makers := by
  intro e he
  have hne : e.orderId ≠ maker.orderId := fun heq => hids (heq ▸ List.mem_map_of_mem he)
  rw [MatchingLoop.takeFrom, Function.update_of_ne hne]
  exact h e (List.mem_cons_of_mem _ he)

theorem holds_fillAll (h : Holds m.2 book) (hids : (makers.map OrderbookEntry.orderId).Nodup)
    (hcurrent : Current book m.1.takerOrder.side makers) :
    Holds (fillAll db tradeIds makers m).2
      (bookAfter m.1.currentTakerRemaining makers book) := by
  induction makers generalizing m book with
  | nil => exact h
  | cons maker makers ih =>
    rw [List.map_cons, List.nodup_cons] at hids
    rw [fillAll, bookAfter]
    split
    · exact h
    · obtain ⟨hmaker, hside⟩ := hcurrent maker List.mem_cons_self
      exact ih (holds_updateBook h hmaker hside) hids.2 (hcurrent.takeFrom hids.1)

theorem bookAfter_of_notMem (h : orderId ∉ makers.map OrderbookEntry.orderId) :
    bookAfter quantity makers book orderId = book orderId := by
  induction makers generalizing quantity book with
  | nil => rfl
  | cons maker makers ih =>
    rw [List.map_cons, List.mem_cons, not_or] at h
    rw [bookAfter]
    split
    · rfl
    · rw [ih h.2, takeFrom, Function.update_of_ne h.1]

/-- Makers that the quantity outlasts are gone. -/
theorem bookAfter_of_outlasts (hids : (makers.map OrderbookEntry.orderId).Nodup)
    (h : Outlasts quantity makers) (he : e ∈ makers) :
    bookAfter quantity makers book e.orderId = none := by
  induction makers generalizing quantity book with
  | nil => exact absurd he List.not_mem_nil
  | cons maker makers ih =>
    rw [List.map_cons, List.nodup_cons] at hids
    rw [bookAfter, if_neg h.1.ne']
    rcases List.mem_cons.mp he with rfl | he
    · have hpos := h.2.pos
      rw [bookAfter_of_notMem hids.1, takeFrom, Function.update_self, if_pos (by omega)]
    · exact ih hids.2 (outlasts_leftBy.mpr h.2) he

/-- An entry after the loop was there before it, with another remaining amount. -/
theorem bookAfter_eq_some {takerSide : OrderSide} (hids : (makers.map OrderbookEntry.orderId).Nodup)
    (hcurrent : Current book takerSide makers)
    (h : bookAfter quantity makers book orderId = some e) :
    ∃ before, book orderId = some before ∧
      e = { before with remainingAmount := e.remainingAmount } := by
  induction makers generalizing quantity book with
  | nil => exact ⟨e, h, rfl⟩
  | cons maker makers ih =>
    rw [List.map_cons, List.nodup_cons] at hids
    rw [bookAfter] at h
    split at h
    · exact ⟨e, h, rfl⟩
    · obtain ⟨before, hbefore, heq⟩ := ih hids.2 (hcurrent.takeFrom hids.1) h
      by_cases hid : orderId = maker.orderId
      · subst hid
        refine ⟨maker, (hcurrent maker List.mem_cons_self).1, ?_⟩
        rw [takeFrom, Function.update_self] at hbefore
        split at hbefore
        · cases hbefore
        · obtain rfl := Option.some.inj hbefore
          exact heq
      · rw [takeFrom, Function.update_of_ne hid] at hbefore
        exact ⟨before, hbefore, heq⟩

end EtherTrade.MatchingLoop
