import Mathlib.Data.List.Induction
import EtherTrade.OrderBook

/-!
# The orders at rest

An order book as the map from order ids to entries. Valkey holds such a map in its sorted
sets and hashes, and each operation on an order changes the map at one id.
-/

namespace EtherTrade.RestingOrders

open DecimalNumbers KeyedRows AccountsSchema OrdersSchema OrderBook SortedSets
open TradeSettlement (TradingSymbol)

/-- The entries by order id. -/
abbrev Book := Uuid → Option OrderbookEntry

/-- The entry of an order that rests in the book. -/
def entryOf (order : Order) : OrderbookEntry where
  orderId := order.id
  userId := order.userId
  pair := order.pair
  side := order.side
  type := order.type
  price := order.price
  amount := order.amount
  remainingAmount := order.remainingAmount

/-- The score of an entry in its sorted set. -/
def bookScore (entry : OrderbookEntry) : ℚ := toNumber (entry.price / scale)

/-- The sorted sets list the entries of each pair and side, and the hashes hold them. -/
structure Holds (v : Valkey) (book : Book) : Prop where
  named : ∀ orderId entry, book orderId = some entry → entry.orderId = orderId
  listed : ∀ pair side orderId, (v.orderbooks pair side).score orderId =
    ((book orderId).filter fun entry => entry.pair = pair ∧ entry.side = side).map bookScore
  detailed : ∀ orderId, v.orderDetails orderId = (book orderId).elim .missing .full

variable {v : Valkey} {book : Book} {entry e : OrderbookEntry} {orderId : Uuid}
  {pair pair' : TradingSymbol} {side side' : OrderSide}

theorem orderbooks_setOrderbook {z : SortedSet Uuid ℚ} :
    (v.setOrderbook pair side z).orderbooks pair' side' =
      if pair' = pair ∧ side' = side then z else v.orderbooks pair' side' := by
  by_cases hpair : pair' = pair
  · subst hpair
    by_cases hside : side' = side
    · subst hside
      simp [Valkey.setOrderbook]
    · simp [Valkey.setOrderbook, hside]
  · simp [Valkey.setOrderbook, hpair]

theorem holds_empty : Holds .empty fun _ => none where
  named _ _ h := by cases h
  listed _ _ _ := rfl
  detailed _ := rfl

namespace Holds

variable (h : Holds v book)

include h

theorem getOrderDetails : v.getOrderDetails orderId = book orderId := by
  rw [Valkey.getOrderDetails, h.detailed]
  cases book orderId <;> rfl

/-- Two books that one store holds are the same. -/
theorem unique {book' : Book} (h' : Holds v book') : book = book' := by
  funext orderId
  rw [← h.getOrderDetails, h'.getOrderDetails]

/-- A new order is added to its side. -/
theorem addOrder (hnew : book entry.orderId = none) :
    Holds (v.addOrder entry) (Function.update book entry.orderId (some entry)) where
  named orderId e he := by
    by_cases hid : orderId = entry.orderId
    · subst hid
      rw [Function.update_self] at he
      rw [Option.some.inj he]
    · rw [Function.update_of_ne hid] at he
      exact h.named orderId e he
  listed pair side orderId := by
    have hset : (v.addOrder entry).orderbooks = (v.zaddOrder entry).orderbooks := rfl
    rw [hset, Valkey.zaddOrder, orderbooks_setOrderbook]
    have hold := h.listed pair side orderId
    by_cases hid : orderId = entry.orderId
    · subst hid
      rw [hnew] at hold
      split
      · next heq =>
        obtain ⟨rfl, rfl⟩ := heq
        simp [bookScore]
      · next hne =>
        have hne' : ¬(entry.pair = pair ∧ entry.side = side) := fun heq =>
          hne ⟨heq.1.symm, heq.2.symm⟩
        simpa [hold] using hne'
    · rw [Function.update_of_ne hid, ← hold]
      split
      · next heq =>
        obtain ⟨rfl, rfl⟩ := heq
        simp [hid]
      · rfl
  detailed orderId := by
    have hset : (v.addOrder entry).orderDetails =
        Function.update v.orderDetails entry.orderId (.full entry) := rfl
    rw [hset]
    by_cases hid : orderId = entry.orderId
    · subst hid
      simp
    · rw [Function.update_of_ne hid, Function.update_of_ne hid]
      exact h.detailed orderId

/-- An order that is in no other book than the named one is removed. -/
theorem removeOrder (hplace : ∀ e, book orderId = some e → e.pair = pair ∧ e.side = side) :
    Holds (v.removeOrder orderId pair side) (Function.update book orderId none) where
  named k e he := by
    by_cases hid : k = orderId
    · subst hid
      simp at he
    · rw [Function.update_of_ne hid] at he
      exact h.named k e he
  listed pair' side' k := by
    have hset : (v.removeOrder orderId pair side).orderbooks =
        (v.zremOrder orderId pair side).orderbooks := rfl
    rw [hset, Valkey.zremOrder, orderbooks_setOrderbook]
    have hold := h.listed pair' side' k
    by_cases hid : k = orderId
    · subst hid
      rw [Function.update_self, Option.filter_none, Option.map_none]
      split
      · exact (SortedSet.score_zrem _).trans (if_pos rfl)
      · next hne =>
        rw [hold, Option.map_eq_none_iff, Option.filter_eq_none_iff]
        intro e he
        obtain ⟨rfl, rfl⟩ := hplace e he
        have hne' : ¬(e.pair = pair' ∧ e.side = side') := fun heq =>
          hne ⟨heq.1.symm, heq.2.symm⟩
        simpa using hne'
    · rw [Function.update_of_ne hid, ← hold]
      split
      · next heq =>
        obtain ⟨rfl, rfl⟩ := heq
        simp [hid]
      · rfl
  detailed k := by
    have hset : (v.removeOrder orderId pair side).orderDetails =
        Function.update v.orderDetails orderId .missing := rfl
    rw [hset]
    by_cases hid : k = orderId
    · subst hid
      simp
    · rw [Function.update_of_ne hid, Function.update_of_ne hid]
      exact h.detailed k

theorem updateRemainingAmount {remainingAmount : ℤ} (he : book orderId = some e) :
    Holds (v.updateRemainingAmount orderId remainingAmount)
      (Function.update book orderId (some { e with remainingAmount })) where
  named k e' he' := by
    by_cases hid : k = orderId
    · subst hid
      rw [Function.update_self] at he'
      obtain rfl := Option.some.inj he'
      exact h.named k e he
    · rw [Function.update_of_ne hid] at he'
      exact h.named k e' he'
  listed pair side k := by
    have hset : (v.updateRemainingAmount orderId remainingAmount).orderbooks = v.orderbooks := rfl
    rw [hset, h.listed]
    by_cases hid : k = orderId
    · subst hid
      rw [Function.update_self, he, Option.filter_some, Option.filter_some]
      split <;> rfl
    · rw [Function.update_of_ne hid]
  detailed k := by
    have hdetails : v.orderDetails orderId = .full e := by
      rw [h.detailed, he]
      rfl
    by_cases hid : k = orderId
    · subst hid
      simp [Valkey.updateRemainingAmount, hdetails]
    · simp only [Valkey.updateRemainingAmount, Function.update_of_ne hid]
      exact h.detailed k

theorem nextSequence : Holds (v.nextSequence pair).1 book where
  named := h.named
  listed := h.listed
  detailed := h.detailed

theorem mem_ranked : orderId ∈ (v.orderbooks pair side).ranked ↔
    ∃ e, book orderId = some e ∧ e.pair = pair ∧ e.side = side := by
  rw [SortedSet.mem_ranked, h.listed, Option.isSome_map, Option.isSome_filter]
  cases book orderId with
  | none => simp
  | some e => simp

end Holds

/-- A book that is filled with distinct orders holds them. -/
theorem holds_rehydrate (activeOrders : List OrderbookEntry)
    (h : KeyUnique OrderbookEntry.orderId activeOrders) :
    Holds (Valkey.empty.rehydrate activeOrders)
      (lookup OrderbookEntry.orderId activeOrders) := by
  induction activeOrders using List.reverseRecOn with
  | nil => exact holds_empty
  | append_singleton activeOrders entry ih =>
    have hrest : KeyUnique OrderbookEntry.orderId activeOrders :=
      h.sublist ((List.sublist_append_left _ _).map _)
    have hnew : lookup OrderbookEntry.orderId activeOrders entry.orderId = none := by
      refine lookup_eq_none.mpr fun e he heq => ?_
      rw [KeyUnique, List.map_append] at h
      exact List.disjoint_of_nodup_append h (List.mem_map_of_mem he) (by simp [heq])
    have hbook : lookup OrderbookEntry.orderId (activeOrders ++ [entry]) =
        Function.update (lookup OrderbookEntry.orderId activeOrders) entry.orderId
          (some entry) := by
      funext orderId
      rw [lookup_append_singleton, Function.update_apply]
      by_cases hid : orderId = entry.orderId
      · subst hid
        simp [hnew]
      · simp [hid, Ne.symm hid]
    rw [Valkey.rehydrate, List.foldl_append, hbook]
    exact (ih hrest).addOrder hnew

/-! ### The opposing side -/

/-- The ids of the opposing orders in the order in which they are read. -/
def opposingOrderIds (v : Valkey) (pair : TradingSymbol) (takerSide : OrderSide) : List Uuid :=
  let ids := (v.orderbooks pair takerSide.opposing).ranked
  if takerSide = .sell then ids.reverse else ids

/-- All opposing orders in that order, of which `getBestOpposingOrders` reads the first. -/
def opposingOrders (v : Valkey) (pair : TradingSymbol) (takerSide : OrderSide) :
    List OrderbookEntry :=
  (opposingOrderIds v pair takerSide).filterMap v.getOrderDetails

theorem getBestOpposingOrders_isInitial (v : Valkey) (pair : TradingSymbol) (takerSide : OrderSide) :
    v.getBestOpposingOrders pair takerSide <+: opposingOrders v pair takerSide := by
  have hread : v.bestOpposingOrderIds pair takerSide =
      (opposingOrderIds v pair takerSide).take 50 := by
    cases takerSide <;> rfl
  rw [Valkey.getBestOpposingOrders, opposingOrders, hread]
  exact (List.take_prefix _ _).filterMap _

/-- The hash of an order names it. -/
def NamesKept (v : Valkey) : Prop :=
  ∀ orderId entry, v.getOrderDetails orderId = some entry → entry.orderId = orderId

theorem Holds.namesKept (h : Holds v book) : NamesKept v := fun orderId entry hentry =>
  h.named orderId entry (h.getOrderDetails ▸ hentry)

theorem nodup_opposingOrders (h : NamesKept v) :
    ((opposingOrders v pair side).map OrderbookEntry.orderId).Nodup := by
  have hids : (opposingOrderIds v pair side).Nodup := by
    unfold opposingOrderIds
    split
    · exact List.nodup_reverse.mpr (SortedSet.nodup_ranked _)
    · exact SortedSet.nodup_ranked _
  have hsub : ((opposingOrders v pair side).map OrderbookEntry.orderId).Sublist
      (opposingOrderIds v pair side) := by
    rw [opposingOrders]
    induction opposingOrderIds v pair side with
    | nil => exact .slnil
    | cons orderId ids ih =>
      cases hdetails : v.getOrderDetails orderId with
      | none =>
        rw [List.filterMap_cons_none hdetails]
        exact .cons _ ih
      | some entry =>
        rw [List.filterMap_cons_some hdetails, List.map_cons, h orderId entry hdetails]
        exact .cons_cons _ ih
  exact hids.sublist hsub

theorem Holds.mem_opposingOrders (h : Holds v book) : e ∈ opposingOrders v pair side ↔
    book e.orderId = some e ∧ e.pair = pair ∧ e.side = side.opposing := by
  have hids (orderId : Uuid) : orderId ∈ opposingOrderIds v pair side ↔
      orderId ∈ (v.orderbooks pair side.opposing).ranked := by
    unfold opposingOrderIds
    split
    · exact List.mem_reverse
    · rfl
  rw [opposingOrders, List.mem_filterMap]
  constructor
  · rintro ⟨orderId, hmem, he⟩
    rw [h.getOrderDetails] at he
    obtain ⟨e', he', hplace⟩ := h.mem_ranked.mp ((hids orderId).mp hmem)
    rw [he] at he'
    obtain rfl := Option.some.inj he'
    exact ⟨(h.named orderId e he).symm ▸ he, hplace⟩
  · rintro ⟨he, hplace⟩
    exact ⟨e.orderId, (hids _).mpr (h.mem_ranked.mpr ⟨e, he, hplace⟩),
      h.getOrderDetails.trans he⟩

end EtherTrade.RestingOrders
