import EtherTrade.OrdersStartup

/-!
# What the start-up restores

The book of each pair that can be traded has the active orders after the start-up exactly
when its sorted sets listed no others before and no command is left out whose write is
missing. The start-up adds and never removes.
-/

namespace EtherTrade.BookRehydrationLaws

open DecimalNumbers KeyedRows AccountsSchema OrdersSchema OrderBook SortedSets RestingOrders
open OrdersStartup
open TradeSettlement (TradingSymbol)

/-- The order with the id, if it is active. -/
def activeOrder (db : OrdersDb) (orderId : Uuid) : Option Order :=
  (db.findById orderId).filter fun order => order.status ∈ activeStatuses

/-- The order is active, on that side of that pair. -/
def ActiveAt (db : OrdersDb) (pair : TradingSymbol) (side : OrderSide) (orderId : Uuid) : Prop :=
  ∃ order, activeOrder db orderId = some order ∧ order.pair = pair ∧ order.side = side

/-- The book of a pair lists the active orders on their sides, with the prices and remaining
amounts of their rows, and nothing else. -/
structure Restored (db : OrdersDb) (pair : TradingSymbol) (v : Valkey) : Prop where
  listed : ∀ side orderId, (v.orderbooks pair side).score orderId =
    ((activeOrder db orderId).filter fun order => order.pair = pair ∧ order.side = side).map
      fun order => bookScore (entryOf order)
  detailed : ∀ orderId order, activeOrder db orderId = some order → order.pair = pair →
    v.getOrderDetails orderId = some (entryOf order)

/-- The sorted sets of a pair list active orders of the pair and the side only. -/
def NoneStale (db : OrdersDb) (pair : TradingSymbol) (v : Valkey) : Prop :=
  ∀ side orderId, ((v.orderbooks pair side).score orderId).isSome → ActiveAt db pair side orderId

/-- What a command writes is there. -/
def Written (v : Valkey) : BookCommand → Prop
  | .zadd entry =>
    (v.orderbooks entry.pair entry.side).score entry.orderId = some (bookScore entry)
  | .hset entry => v.getOrderDetails entry.orderId = some entry

variable {db : OrdersDb} {v : Valkey} {pair : TradingSymbol} {side : OrderSide} {orderId : Uuid}
  {order : Order} {activeOrders : List Order} {c command : BookCommand}
  {commands : List BookCommand}

/-! ### Commands -/

theorem score_zaddOrder {entry : OrderbookEntry} :
    ((v.zaddOrder entry).orderbooks pair side).score orderId =
      if entry.pair = pair ∧ entry.side = side ∧ entry.orderId = orderId then
        some (bookScore entry)
      else (v.orderbooks pair side).score orderId := by
  rw [Valkey.zaddOrder, orderbooks_setOrderbook]
  by_cases hplace : pair = entry.pair ∧ side = entry.side
  · obtain ⟨rfl, rfl⟩ := hplace
    simp [bookScore, eq_comm]
  · rw [if_neg hplace, if_neg fun h => hplace ⟨h.1.symm, h.2.1.symm⟩]

theorem getOrderDetails_hsetOrder {entry : OrderbookEntry} :
    (v.hsetOrder entry).getOrderDetails orderId =
      if entry.orderId = orderId then some entry else v.getOrderDetails orderId := by
  by_cases hid : entry.orderId = orderId
  · subst hid
    simp [Valkey.getOrderDetails, Valkey.hsetOrder]
  · simp [Valkey.getOrderDetails, Valkey.hsetOrder, hid, Ne.symm hid]

theorem written_run (command : BookCommand) : Written (command.run v) command := by
  cases command with
  | zadd entry => simp [Written, BookCommand.run, score_zaddOrder]
  | hset entry => simp [Written, BookCommand.run, getOrderDetails_hsetOrder]

/-- Commands for different orders, or of different kinds, do not touch each other. -/
theorem written_run_other (hne : c ≠ command)
    (hid : c.entry.orderId = command.entry.orderId → c.entry = command.entry) :
    Written (c.run v) command ↔ Written v command := by
  cases command with
  | zadd entry =>
    cases c with
    | zadd entry' =>
      have hother : entry'.orderId ≠ entry.orderId := fun h => hne (congrArg _ (hid h))
      simp [Written, BookCommand.run, score_zaddOrder, hother]
    | hset entry' => rfl
  | hset entry =>
    cases c with
    | zadd entry' => rfl
    | hset entry' =>
      have hother : entry'.orderId ≠ entry.orderId := fun h => hne (congrArg _ (hid h))
      simp [Written, BookCommand.run, getOrderDetails_hsetOrder, hother]

/-- What no command changes, a sequence of them does not change. -/
theorem foldl_iff {P : Valkey → Prop} (h : ∀ c ∈ commands, ∀ v, P (c.run v) ↔ P v) :
    P (commands.foldl BookCommand.run v) ↔ P v := by
  induction commands generalizing v with
  | nil => rfl
  | cons c commands ih =>
    rw [List.foldl_cons, ih fun c hc => h c (List.mem_cons_of_mem _ hc)]
    exact h c List.mem_cons_self v

/-- Commands of distinct orders. -/
def Distinct (commands : List BookCommand) : Prop :=
  ∀ c ∈ commands, ∀ c' ∈ commands, c.entry.orderId = c'.entry.orderId → c.entry = c'.entry

theorem written_foldl_of_mem (hdistinct : Distinct commands) (hmem : command ∈ commands) :
    Written (commands.foldl BookCommand.run v) command := by
  induction commands generalizing v with
  | nil => cases hmem
  | cons c commands ih =>
    have hrest : Distinct commands := fun c hc c' hc' =>
      hdistinct c (List.mem_cons_of_mem _ hc) c' (List.mem_cons_of_mem _ hc')
    rw [List.foldl_cons]
    by_cases hlater : command ∈ commands
    · exact ih hrest hlater
    · obtain rfl : command = c := (List.mem_cons.1 hmem).resolve_right hlater
      refine (foldl_iff (P := fun v => Written v command) fun c hc v => ?_).2 (written_run command)
      refine written_run_other ?_ (hdistinct c (List.mem_cons_of_mem _ hc) command hmem)
      rintro rfl
      exact hlater hc

/-! ### The active orders -/

theorem activeOrder_eq_some : activeOrder db orderId = some order ↔
    db.findById orderId = some order ∧ order.status ∈ activeStatuses := by
  simp [activeOrder, Option.filter_eq_some_iff]

section Rows

variable (hkeys : KeyUnique Order.id db.orders)
  (hrows : IsActiveOrdersByPair db none activeOrders)

include hkeys hrows

theorem mem_activeOrders : order ∈ activeOrders ↔ activeOrder db order.id = some order := by
  rw [hrows.mem_iff, activeOrdersByPair, List.mem_filter, activeOrder_eq_some, OrdersDb.findById,
    lookup_eq_some hkeys]
  simp

theorem mem_commands : command ∈ rehydrateCommands (activeOrders.map entryOf) ↔
    ∃ order, activeOrder db order.id = some order ∧ entryOf order = command.entry := by
  rw [mem_rehydrateCommands, List.mem_map]
  simp only [mem_activeOrders hkeys hrows]

theorem distinct_commands : Distinct (rehydrateCommands (activeOrders.map entryOf)) := by
  intro c hc c' hc' hid
  obtain ⟨order, horder, hentry⟩ := (mem_commands hkeys hrows).1 hc
  obtain ⟨order', horder', hentry'⟩ := (mem_commands hkeys hrows).1 hc'
  rw [← hentry, ← hentry'] at hid ⊢
  have hsame : order.id = order'.id := hid
  rw [hsame, horder'] at horder
  rw [Option.some.inj horder]

theorem nodup_commands : (rehydrateCommands (activeOrders.map entryOf)).Nodup := by
  have hids : (activeOrders.map Order.id).Nodup := by
    rw [(hrows.map Order.id).nodup_iff]
    exact hkeys.sublist (List.filter_sublist.map _)
  have hentries : (activeOrders.map entryOf).Nodup :=
    List.Nodup.of_map OrderbookEntry.orderId (by rwa [List.map_map])
  refine List.nodup_flatMap.2 ⟨fun entry _ => by simp, hentries.imp fun {entry entry'} hne => ?_⟩
  simp [Function.onFun, Ne.symm hne]

omit hkeys hrows in
theorem id_of_activeOrder (h : activeOrder db orderId = some order) : order.id = orderId :=
  (lookup_mem (activeOrder_eq_some.1 h).1).2

omit hkeys hrows in
theorem noneStale_of_restored (h : Restored db pair v) : NoneStale db pair v := by
  intro side orderId hscore
  rw [h.listed, Option.isSome_map, Option.isSome_filter, Option.any_eq_true] at hscore
  obtain ⟨order, hactive, hplace⟩ := hscore
  obtain ⟨hpair, hside⟩ := of_decide_eq_true hplace
  exact ⟨order, hactive, hpair, hside⟩

theorem written_of_restored (h : Restored db pair v)
    (hmem : command ∈ rehydrateCommands (activeOrders.map entryOf))
    (hpair : command.entry.pair = pair) : Written v command := by
  obtain ⟨order, hactive, hentry⟩ := (mem_commands hkeys hrows).1 hmem
  subst hpair
  cases command with
  | zadd entry =>
    obtain rfl : entryOf order = entry := hentry
    have hlisted := h.listed order.side order.id
    rw [hactive, Option.filter_some, if_pos (by simp [BookCommand.entry, entryOf])] at hlisted
    exact hlisted
  | hset entry =>
    obtain rfl : entryOf order = entry := hentry
    exact h.detailed _ _ hactive rfl

theorem restored_of_written (hstale : NoneStale db pair v)
    (hwritten : ∀ command ∈ rehydrateCommands (activeOrders.map entryOf),
      command.entry.pair = pair → Written v command) : Restored db pair v where
  listed side orderId := by
    by_cases hactive : ActiveAt db pair side orderId
    · obtain ⟨order, hactive, rfl, rfl⟩ := hactive
      obtain rfl := id_of_activeOrder hactive
      rw [hactive, Option.filter_some, if_pos (by simp), Option.map_some]
      exact hwritten (.zadd (entryOf order)) ((mem_commands hkeys hrows).2 ⟨order, hactive, rfl⟩) rfl
    · have hnone : (activeOrder db orderId).filter
          (fun order => order.pair = pair ∧ order.side = side) = none := by
        refine Option.filter_eq_none_iff.2 fun order horder hplace => hactive ?_
        exact ⟨order, horder, of_decide_eq_true hplace⟩
      rw [hnone, Option.map_none, ← Option.not_isSome_iff_eq_none]
      exact fun hscore => hactive (hstale side orderId hscore)
  detailed orderId order hactive hpair := by
    obtain rfl := id_of_activeOrder hactive
    exact hwritten (.hset (entryOf order)) ((mem_commands hkeys hrows).2 ⟨order, hactive, rfl⟩) hpair

/-- A command leaves stale members, and adds none. -/
theorem noneStale_run (hmem : command ∈ rehydrateCommands (activeOrders.map entryOf)) :
    NoneStale db pair (command.run v) ↔ NoneStale db pair v := by
  cases command with
  | hset entry => rfl
  | zadd entry =>
    obtain ⟨order, hactive, hentry⟩ := (mem_commands hkeys hrows).1 hmem
    obtain rfl : entryOf order = entry := hentry
    refine forall_congr' fun side => forall_congr' fun orderId => ?_
    rw [BookCommand.run, score_zaddOrder]
    split
    · next hplace =>
      obtain ⟨rfl, rfl, rfl⟩ := hplace
      have hat : ActiveAt db (entryOf order).pair (entryOf order).side (entryOf order).orderId :=
        ⟨order, hactive, rfl, rfl⟩
      exact iff_of_true (fun _ => hat) (fun _ => hat)
    · rfl

/-- The start-up restores the book of every pair that can be traded if and only if its sorted
sets list active orders of the pair and the side only, and what the commands left out by a
failure would write is there. -/
theorem restored_iff (v : Valkey) (failure : Option StartupFailure) :
    (∀ pair ∈ supportedPairs, Restored db pair (onModuleInit v activeOrders failure)) ↔
      (∀ pair ∈ supportedPairs, NoneStale db pair v) ∧
        ∀ command ∈ leftOut activeOrders failure,
          command.entry.pair ∈ supportedPairs → Written v command := by
  obtain ⟨performed, hcommands, hinit⟩ := onModuleInit_eq v activeOrders failure
  have hdistinct := distinct_commands hkeys hrows
  have hnodup := nodup_commands hkeys hrows
  have hmem : ∀ c ∈ performed, c ∈ rehydrateCommands (activeOrders.map entryOf) := fun c hc =>
    hcommands ▸ List.mem_append_left _ hc
  have hstale (pair : TradingSymbol) :
      NoneStale db pair (performed.foldl BookCommand.run v) ↔ NoneStale db pair v :=
    foldl_iff fun c hc _ => noneStale_run hkeys hrows (hmem c hc)
  have hleft : ∀ command ∈ leftOut activeOrders failure,
      (Written (performed.foldl BookCommand.run v) command ↔ Written v command) := by
    intro command hcommand
    have hin : command ∈ rehydrateCommands (activeOrders.map entryOf) :=
      hcommands ▸ List.mem_append_right _ hcommand
    refine foldl_iff (P := fun v => Written v command) fun c hc v =>
      written_run_other ?_ (hdistinct c (hmem c hc) command hin)
    rintro rfl
    rw [← hcommands] at hnodup
    exact List.disjoint_of_nodup_append hnodup hc hcommand
  have hdone : ∀ command ∈ performed, Written (performed.foldl BookCommand.run v) command :=
    fun command => written_foldl_of_mem fun c hc c' hc' => hdistinct c (hmem c hc) c' (hmem c' hc')
  rw [hinit]
  constructor
  · refine fun h => ⟨fun pair hpair => (hstale pair).1 (noneStale_of_restored (h pair hpair)), ?_⟩
    intro command hcommand hpair
    exact (hleft command hcommand).1 (written_of_restored hkeys hrows (h _ hpair)
      (hcommands ▸ List.mem_append_right _ hcommand) rfl)
  · rintro ⟨hnone, hwritten⟩ pair hpair
    refine restored_of_written hkeys hrows ((hstale pair).2 (hnone pair hpair)) ?_
    rintro command hcommand rfl
    rw [← hcommands] at hcommand
    rcases List.mem_append.1 hcommand with hcommand | hcommand
    · exact hdone command hcommand
    · exact (hleft command hcommand).2 (hwritten command hcommand hpair)

end Rows

def restingOrder : Order :=
  ⟨"order", "user", ⟨.eth, .usdt⟩, .sell, .limit, 10000000000, 100000000, 0, 100000000, .opened,
    "key"⟩

def oneOrder : OrdersDb := ⟨[restingOrder], [], []⟩

theorem restored_iff_oneOrder :
    Restored oneOrder ⟨.eth, .usdt⟩ (onModuleInit .empty [restingOrder] none) := by
  have hkeys : KeyUnique Order.id oneOrder.orders := List.nodup_singleton _
  have hrows : IsActiveOrdersByPair oneOrder none [restingOrder] := .refl [restingOrder]
  refine (restored_iff hkeys hrows .empty none).2
    ⟨fun pair _ side orderId hscore => ?_, fun command hcommand => absurd hcommand List.not_mem_nil⟩
    ⟨.eth, .usdt⟩ (by decide)
  cases hscore

/-- The entry of an order whose transaction was rolled back stays in the book. -/
theorem not_restored_rolledBack : ¬∀ db v activeOrders, KeyUnique Order.id db.orders →
    IsActiveOrdersByPair db none activeOrders → ∀ pair ∈ supportedPairs,
      Restored db pair (onModuleInit v activeOrders none) := by
  intro h
  have hrestored := h .empty (Valkey.empty.addOrder (entryOf restingOrder)) [] keyUnique_nil
    (by decide) ⟨.eth, .usdt⟩ (by decide)
  have hlisted := hrestored.listed .sell "order"
  exact absurd hlisted (by decide +kernel)

end EtherTrade.BookRehydrationLaws
