import EtherTrade.RestingOrders

/-!
# Start-up of the orders service

`onModuleInit` reads the active orders of all pairs and adds each of them to the book, by
two commands. A failure, of the query or of a command, is logged, and the service starts
with what Valkey holds then.
-/

namespace EtherTrade.OrdersStartup

open AccountsSchema OrdersSchema OrderBook RestingOrders
open TradeSettlement (TradingSymbol)

def activeStatuses : List OrderStatus := [.opened, .partiallyFilled]

/-- The rows that the query selects. It orders them by a time that rows do not carry here. -/
def activeOrdersByPair (db : OrdersDb) (pair : Option TradingSymbol) : List Order :=
  db.orders.filter fun order => order.status ∈ activeStatuses ∧ (pair.all fun s => s = order.pair)

/-- `findActiveOrdersByPair` may return these rows. -/
def IsActiveOrdersByPair (db : OrdersDb) (pair : Option TradingSymbol) (rows : List Order) : Prop :=
  rows.Perm (activeOrdersByPair db pair)

instance (db : OrdersDb) (pair : Option TradingSymbol) (rows : List Order) :
    Decidable (IsActiveOrdersByPair db pair rows) :=
  inferInstanceAs (Decidable (rows.Perm _))

/-- The commands of `addOrder`. -/
inductive BookCommand where
  | zadd (entry : OrderbookEntry)
  | hset (entry : OrderbookEntry)
  deriving DecidableEq, Repr

namespace BookCommand

def entry : BookCommand → OrderbookEntry
  | .zadd entry => entry
  | .hset entry => entry

def run (v : Valkey) : BookCommand → Valkey
  | .zadd entry => v.zaddOrder entry
  | .hset entry => v.hsetOrder entry

end BookCommand

/-- The commands of `rehydrate`. -/
def rehydrateCommands (activeOrders : List OrderbookEntry) : List BookCommand :=
  activeOrders.flatMap fun entry => [.zadd entry, .hset entry]

/-- What fails: the query, or a command after so many have taken effect. -/
inductive StartupFailure where
  | query
  | command (performed : ℕ)
  deriving DecidableEq, Repr

/-- What Valkey holds after `onModuleInit`, which returns in any case. -/
def onModuleInit (v : Valkey) (activeOrders : List Order) : Option StartupFailure → Valkey
  | none => v.rehydrate (activeOrders.map entryOf)
  | some .query => v
  | some (.command performed) =>
    ((rehydrateCommands (activeOrders.map entryOf)).take performed).foldl BookCommand.run v

/-- The commands that a failure leaves out. -/
def leftOut (activeOrders : List Order) : Option StartupFailure → List BookCommand
  | none => []
  | some .query => rehydrateCommands (activeOrders.map entryOf)
  | some (.command performed) => (rehydrateCommands (activeOrders.map entryOf)).drop performed

variable {v : Valkey} {entries : List OrderbookEntry} {activeOrders : List Order}
  {failure : Option StartupFailure} {command : BookCommand}

/-- `rehydrate` runs its commands one after the other. -/
theorem foldl_rehydrateCommands :
    (rehydrateCommands entries).foldl BookCommand.run v = v.rehydrate entries := by
  rw [rehydrateCommands, List.foldl_flatMap]
  rfl

theorem mem_rehydrateCommands : command ∈ rehydrateCommands entries ↔
    command.entry ∈ entries := by
  simp only [rehydrateCommands, List.mem_flatMap]
  cases command <;> simp [BookCommand.entry]

/-- A start-up runs a first part of the commands. -/
theorem onModuleInit_eq (v : Valkey) (activeOrders : List Order)
    (failure : Option StartupFailure) : ∃ performed,
      performed ++ leftOut activeOrders failure = rehydrateCommands (activeOrders.map entryOf) ∧
        onModuleInit v activeOrders failure = performed.foldl BookCommand.run v := by
  match failure with
  | none => exact ⟨_, List.append_nil _, foldl_rehydrateCommands.symm⟩
  | some .query => exact ⟨[], rfl, rfl⟩
  | some (.command performed) => exact ⟨_, List.take_append_drop performed _, rfl⟩

end EtherTrade.OrdersStartup
