import EtherTrade.OpenOrders

/-!
# Rows and trades of a matching loop

The loop of `executeMatch` moves quantity from what remains of the taker to what is filled,
by positive trades, and fills the row of each maker by its share when its turn comes.
-/

namespace EtherTrade.MatchTurns

open KeyedRows AccountsSchema OrdersSchema OrderBook MatchingEngine OrdersTransactionInvariants
open SequentialOrders RestingOrders MatchingLoop OpenOrders

variable {db : OrdersDb} {tradeIds : ℕ → Uuid} {m : Matching} {order : Order}
  {maker e : OrderbookEntry} {makers : List OrderbookEntry} {orderId : Uuid}

/-! ### The taker and the trades -/

theorem filled_add_remaining_fillAll :
    (fillAll db tradeIds makers m).1.currentTakerFilled +
        (fillAll db tradeIds makers m).1.currentTakerRemaining =
      m.1.currentTakerFilled + m.1.currentTakerRemaining := by
  refine fillAll_of_kept (f := fun m => m.1.currentTakerFilled + m.1.currentTakerRemaining) ?_
  intro maker _ m
  change m.1.currentTakerFilled + m.1.matchAmount maker +
    (m.1.currentTakerRemaining - m.1.matchAmount maker) = _
  ring

/-- The quantities of trades in total. -/
def volume (trades : List MatchedTrade) : ℤ := (trades.map MatchedTrade.quantity).sum

theorem volume_fillAll :
    (fillAll db tradeIds makers m).1.currentTakerFilled -
        volume (fillAll db tradeIds makers m).1.trades =
      m.1.currentTakerFilled - volume m.1.trades := by
  refine fillAll_of_kept (f := fun m => m.1.currentTakerFilled - volume m.1.trades) ?_
  intro maker _ m
  have hvolume : volume (fillMaker db tradeIds maker m).1.trades =
      volume m.1.trades + m.1.matchAmount maker := by
    simp [volume, fillMaker, matchedTrade]
  rw [hvolume]
  change m.1.currentTakerFilled + m.1.matchAmount maker - _ = _
  ring

/-- A trade of the loop is a positive quantity of one of the makers. -/
theorem mem_trades_fillAll {trade : MatchedTrade} (hpos : 0 ≤ m.1.currentTakerRemaining)
    (hmakers : ∀ maker ∈ makers, 0 < maker.remainingAmount)
    (h : trade ∈ (fillAll db tradeIds makers m).1.trades) : trade ∈ m.1.trades ∨
      ∃ maker ∈ makers, ∃ quantity tradeId, 0 < quantity ∧
        trade = matchedTrade m.1.takerOrder maker quantity tradeId := by
  induction makers generalizing m with
  | nil => exact Or.inl h
  | cons maker makers ih =>
    rw [fillAll] at h
    split at h
    · exact Or.inl h
    · next hopen =>
      have hlt : 0 < m.1.currentTakerRemaining := lt_of_le_of_ne hpos (Ne.symm hopen)
      rcases ih leftBy_nonneg (fun other hother => hmakers other (List.mem_cons_of_mem _ hother)) h
        with h | ⟨other, hother, quantity, tradeId, hquantity, rfl⟩
      · rcases List.mem_append.mp h with h | h
        · exact Or.inl h
        · have hmatched : 0 < m.1.matchAmount maker :=
            lt_min hlt (hmakers maker List.mem_cons_self)
          obtain rfl := List.mem_singleton.mp h
          exact Or.inr ⟨maker, List.mem_cons_self, _, _, hmatched, rfl⟩
      · exact Or.inr ⟨other, List.mem_cons_of_mem _ hother, quantity, tradeId, hquantity, rfl⟩

/-! ### Rows -/

theorem findById_fillMaker_of_ne (h : orderId ≠ maker.orderId) :
    (fillMaker db tradeIds maker m).1.findById db orderId = m.1.findById db orderId := by
  rw [fillMaker, findById_fill, if_neg h]

/-- A maker's row is filled by its share in its turn. -/
theorem findById_fillAll (hids : (makers.map OrderbookEntry.orderId).Nodup) (he : e ∈ makers)
    (hpos : 0 ≤ m.1.currentTakerRemaining) (hrow : m.1.findById db e.orderId = some order)
    (hentry : entryOf order = e) :
    (fillAll db tradeIds makers m).1.findById db e.orderId =
      some (if Outlasts m.1.currentTakerRemaining (ahead makers e) then
        filledBy order (share m.1.currentTakerRemaining makers e) else order) := by
  rcases fillAll_turn (f := fun m => m.1.findById db e.orderId) hids he hpos
      fun _ _ hne => findById_fillMaker_of_ne hne with
    ⟨hlast, heq⟩ | ⟨hlast, turn, hturn, -, hamount, heq⟩
  · rw [if_neg hlast, ← hrow]
    exact heq
  · rw [if_pos hlast, ← hamount]
    refine heq.trans ((findById_fillMaker (hturn.trans hrow) hentry _).trans (if_pos rfl))

theorem findById_fillAll_of_notMem (h : orderId ∉ makers.map OrderbookEntry.orderId) :
    (fillAll db tradeIds makers m).1.findById db orderId = m.1.findById db orderId :=
  fillAll_of_kept (f := fun m => m.1.findById db orderId) fun _ hmaker _ =>
    findById_fillMaker_of_ne fun heq => h (heq ▸ List.mem_map_of_mem hmaker)

/-- The rows the loop returns are those of the makers of its trades. -/
structure Returned (db : OrdersDb) (w : UnitOfWork) : Prop where
  rows_eq : w.makerOrdersUpdated.map some =
    w.trades.map fun trade => w.findById db trade.makerOrderId

theorem returned_fillAll (h : Returned db m.1)
    (hids : (makers.map OrderbookEntry.orderId).Nodup)
    (hrows : ∀ maker ∈ makers, (m.1.findById db maker.orderId).isSome)
    (hpast : ∀ trade ∈ m.1.trades, trade.makerOrderId ∉ makers.map OrderbookEntry.orderId) :
    Returned db (fillAll db tradeIds makers m).1 := by
  induction makers generalizing m with
  | nil => exact h
  | cons maker makers ih =>
    rw [List.map_cons, List.nodup_cons] at hids
    rw [fillAll]
    split
    · exact h
    · have hne (trade : MatchedTrade) (htrade : trade ∈ m.1.trades) :
          trade.makerOrderId ≠ maker.orderId := fun heq =>
        hpast trade htrade (heq ▸ List.mem_cons_self)
      refine ih ⟨?_⟩ hids.2 ?_ ?_
      · have hown : (fillMaker db tradeIds maker m).1.findById db maker.orderId =
            m.1.updateExecution db maker.orderId (m.1.currentMakerFilled db maker)
              (m.1.newMakerRemaining maker) (m.1.makerStatus maker) := by
          rw [fillMaker, findById_fill, if_pos rfl]
        have hsome : ((fillMaker db tradeIds maker m).1.findById db maker.orderId).isSome := by
          rw [hown, UnitOfWork.updateExecution, Option.isSome_map]
          exact hrows maker List.mem_cons_self
        obtain ⟨row, hrow⟩ := Option.isSome_iff_exists.mp hsome
        have hreturned : (fillMaker db tradeIds maker m).1.makerOrdersUpdated =
            m.1.makerOrdersUpdated ++ [row] := by
          rw [hown] at hrow
          simp [fillMaker, UnitOfWork.fill, hrow]
        have htrades : (fillMaker db tradeIds maker m).1.trades = m.1.trades ++
            [matchedTrade m.1.takerOrder maker (m.1.matchAmount maker)
              (tradeIds m.1.trades.length)] := rfl
        have hkept : m.1.trades.map (fun trade =>
              (fillMaker db tradeIds maker m).1.findById db trade.makerOrderId) =
            m.1.trades.map fun trade => m.1.findById db trade.makerOrderId :=
          List.map_congr_left fun trade htrade => findById_fillMaker_of_ne (hne trade htrade)
        rw [hreturned, htrades, List.map_append, List.map_append, h.rows_eq, hkept,
          List.map_singleton, List.map_singleton, ← hrow]
        rfl
      · intro other hother
        have hother' : other.orderId ≠ maker.orderId := fun heq =>
          hids.1 (heq ▸ List.mem_map_of_mem hother)
        rw [findById_fillMaker_of_ne hother']
        exact hrows other (List.mem_cons_of_mem _ hother)
      · intro trade htrade
        rcases List.mem_append.mp htrade with htrade | htrade
        · exact fun hmem => hpast trade htrade (List.mem_cons_of_mem _ hmem)
        · rw [List.mem_singleton.mp htrade]
          exact hids.1

end EtherTrade.MatchTurns
