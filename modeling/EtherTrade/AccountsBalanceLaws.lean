import EtherTrade.AccountsTransactionRuns

/-!
# Balances, ledger and supply in every run

Non-negative balances, the replay of the ledger and the conservation of supply, over
every interleaving of balance calls and settlement deliveries.
-/

namespace EtherTrade.AccountsBalanceLaws

open DecimalNumbers AccountsSchema AccountsDbInvariants BalanceMutations TradeSettlement
open TradeSettlementCorrectness AccountsDbHistory InterleavedProcesses AccountsTransactions
open AccountsTransactionRuns

variable {d : AccountsConfig} {es : List (Event Action)}

/-- In a run whose settlements commit only when they are covered, no balance is ever
negative. -/
theorem balances_nonneg (h : AccountsRun (fun _ => True) Covered es d) :
    ∀ a ∈ d.shared.store.accounts, 0 ≤ a.availableBalance ∧ 0 ≤ a.lockedBalance :=
  (run_invariant h nonNegative_empty fun _ _ hdb hI hcommitted =>
    nonNegative_committed hdb hI (hcommitted.imp fun _ hG => hG.2)).2

/-- The statements of a balance call that opens its account. -/
def openingCall (p : ℕ) (op : BalanceOperation) (params : BalanceParams) (newId : Uuid) :
    List (Event Action) :=
  [⟨p, .call op params⟩, ⟨p, .statement⟩, ⟨p, .statement⟩, ⟨p, .insertAccount newId⟩,
    ⟨p, .statement⟩, ⟨p, .statement⟩, ⟨p, .statement⟩]

/-- The statements of a balance call on an account that exists. -/
def plainCall (p : ℕ) (op : BalanceOperation) (params : BalanceParams) : List (Event Action) :=
  ⟨p, .call op params⟩ :: List.replicate 5 ⟨p, .statement⟩

/-- The statements of a delivery that opens the accounts of its trade with the ids given,
where they do not exist. -/
def delivery (p : ℕ) (payload : KafkaBatchConsumerPayload) (newIds : List (Participant × Uuid))
    (statements : ℕ) : List (Event Action) :=
  ⟨p, .deliver payload⟩ :: (Participant.all.map fun q => ⟨p, .findOrCreate q ""⟩) ++
    (newIds.map fun r => ⟨p, .findOrCreate r.1 r.2⟩) ++ List.replicate statements ⟨p, .statement⟩

def ethTrade : TradeExecutedEvent where
  tradeId := "trade"
  buyerUserId := "buyer"
  sellerUserId := "seller"
  symbol := ⟨.eth, .usdt⟩
  price := .finite 2
  quantity := .finite 1
  buyerLimitPrice := .finite 3

def ethTradeMessage : KafkaBatchConsumerPayload :=
  ⟨"0", some ⟨"event", tradeExecuted, "TradeExecuted", some ethTrade⟩, ""⟩

/-- Both users fund and lock what the trade takes, and the trade is settled. -/
def fundedTrade : List (Event Action) :=
  openingCall 0 .deposit ⟨"buyer", .usdt, .coins 5, "deposit", none⟩ "a" ++
  plainCall 1 .lock ⟨"buyer", .usdt, .coins 3, "lock:1", none⟩ ++
  openingCall 2 .creditDeposit ⟨"seller", .eth, .coins 1, "credit", none⟩ "b" ++
  plainCall 3 .lock ⟨"seller", .eth, .coins 1, "lock:2", none⟩ ++
  delivery 4 ethTradeMessage [(.buyerBase, "c"), (.sellerQuote, "d")] 9

theorem fundedTrade_executes : (accountsSystem.exec initial fundedTrade).isSome = true := by
  decide +kernel

theorem balances_nonneg_fundedTrade :
    let db := ((accountsSystem.exec initial fundedTrade).get fundedTrade_executes).shared.store
    db.accounts.length = 4 ∧
      ∀ a ∈ db.accounts, 0 ≤ a.availableBalance ∧ 0 ≤ a.lockedBalance :=
  ⟨by decide +kernel,
    balances_nonneg (accountsRun_of_meetsGuard (Option.some_get _).symm (by decide +kernel))⟩

/-- The trade is delivered although nobody has locked anything. -/
def unfundedTrade : List (Event Action) :=
  delivery 0 ethTradeMessage
    [(.buyerQuote, "a"), (.buyerBase, "b"), (.sellerQuote, "c"), (.sellerBase, "d")] 9

theorem unfundedTrade_executes : (accountsSystem.exec initial unfundedTrade).isSome = true := by
  decide +kernel

/-- A settlement does not compare what it takes with what is locked. -/
theorem balances_negative_unfundedTrade : ¬∀ es d, accountsSystem.exec initial es = some d →
    ∀ a ∈ d.shared.store.accounts, 0 ≤ a.availableBalance ∧ 0 ≤ a.lockedBalance := by
  intro h
  have hmem : (⟨"a", "buyer", .usdt, 100000000, -300000000⟩ : Account) ∈
      ((accountsSystem.exec initial unfundedTrade).get unfundedTrade_executes).shared.store.accounts := by
    decide +kernel
  have hnonneg := h _ _ (Option.some_get unfundedTrade_executes).symm _ hmem
  exact absurd hnonneg.2 (by decide)

/-- The ledger replays to the balances: in every run that settles trades between two users
in two currencies, each account holds the sums of its ledger deltas, and each of its rows,
in commit order, records the sums up to it. -/
theorem ledger_replays (h : AccountsRun Distinct (fun _ _ => True) es d) :
    LedgerReplays d.shared.store := by
  obtain ⟨hdb, hbalanced⟩ := run_invariant (I := fun db => (books db).Balanced) h
    (books_empty ▸ .empty) fun _ _ hdb hI hcommitted =>
      balanced_committed hdb hI (hcommitted.imp fun _ hG => hG.1)
  exact ledgerReplays_of_balanced hdb hbalanced

theorem ledger_replays_fundedTrade : LedgerReplays
    ((accountsSystem.exec initial fundedTrade).get fundedTrade_executes).shared.store :=
  ledger_replays (accountsRun_of_meetsGuard (Option.some_get _).symm (by decide +kernel))

/-- Conservation of supply: what all accounts of a currency hold is what was deposited in it
less what was withdrawn. -/
theorem supply_conservation (h : AccountsRun Distinct (fun _ _ => True) es d)
    (currency : Currency) : supply d.shared.store currency =
      applied d.shared.store currency [.deposit, .onChainDeposit] -
        applied d.shared.store currency [.withdrawal] := by
  obtain ⟨hdb, hbalanced, hledger⟩ := run_invariant
    (I := fun db => (books db).Balanced ∧ LedgerConserves db) h
    ⟨books_empty ▸ .empty, fun _ => rfl⟩ fun _ _ hdb hI hcommitted =>
      ⟨balanced_committed hdb hI.1 (hcommitted.imp fun _ hG => hG.1),
        ledgerConserves_committed hdb hI.2 hcommitted⟩
  exact supply_conserved hdb hbalanced hledger currency

theorem supply_conservation_fundedTrade :
    let db := ((accountsSystem.exec initial fundedTrade).get fundedTrade_executes).shared.store
    supply db .usdt = applied db .usdt [.deposit, .onChainDeposit] - applied db .usdt [.withdrawal] :=
  supply_conservation (accountsRun_of_meetsGuard (Option.some_get _).symm (by decide +kernel)) .usdt

end EtherTrade.AccountsBalanceLaws
