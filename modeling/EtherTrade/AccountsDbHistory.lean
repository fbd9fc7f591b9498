import EtherTrade.BalanceMutationCorrectness
import EtherTrade.TradeSettlementCorrectness

/-!
# What every history of the accounts database preserves

A database changes when an account is opened, when a balance mutation commits, and when
a settlement commits. Each of these keeps the schema constraints; under the conditions
stated here it also keeps balances from falling below zero, keeps the books balanced,
and keeps the sum of all balances equal to what came in less what went out.
-/

namespace EtherTrade.AccountsDbHistory

open DecimalNumbers KeyedRows AccountsSchema PostedJournals AccountsDbInvariants
open BalanceMutations BalanceMutationCorrectness TradeSettlement TradeSettlementCorrectness

/-- One change of the committed database. Settlements meet the condition `G`. -/
inductive Committed (G : TradeExecutedEvent → AccountsDb → Prop) (db : AccountsDb) :
    AccountsDb → Prop
  | opened {account : Account} (hzero : account.balances = 0)
      (hid : db.findById account.id = none)
      (howner : db.findByUserAndCurrency account.userId account.currency = none) :
      Committed G db (db.insertAccount account)
  | mutated {op : BalanceOperation} {params : BalanceParams} {account : Account}
      {prepared : AccountsDb}
      (hkey : db.findLedgerByIdempotencyKey params.idempotencyKey = none)
      (hprepared : Prepared op.mutation params db account prepared) :
      Committed G db (op.mutation.commit params account prepared)
  | settled {envelope : DomainEventEnvelope} {trade : TradeExecutedEvent}
      {ids : Participant → Uuid} {writes : SettlementWrites}
      (hs : Settlement envelope trade ids writes db) (hG : G trade db) :
      Committed G db (commitSettlement envelope writes db)

variable {G : TradeExecutedEvent → AccountsDb → Prop} {db db' : AccountsDb}

theorem Committed.imp {G' : TradeExecutedEvent → AccountsDb → Prop}
    (himp : ∀ trade, G trade db → G' trade db) (h : Committed G db db') : Committed G' db db' := by
  cases h with
  | opened hzero hid howner => exact .opened hzero hid howner
  | mutated hkey hprepared => exact .mutated hkey hprepared
  | settled hs hG => exact .settled hs (himp _ hG)

/-! ### Non-negative balances -/

def NonNegative (db : AccountsDb) : Prop :=
  ∀ a ∈ db.accounts, 0 ≤ a.availableBalance ∧ 0 ≤ a.lockedBalance

/-- The balances of a user in a currency, zero without an account. -/
def balancesOf (db : AccountsDb) (userId : Uuid) (currency : Currency) : Balances :=
  ((db.findByUserAndCurrency userId currency).map Account.balances).getD 0

/-- The locked and available balances that a settlement takes from cover what it takes. A
quote cost below zero takes from the seller. -/
def Covered (trade : TradeExecutedEvent) (db : AccountsDb) : Prop :=
  ∀ f ∈ figures (calculateSettlementAmounts trade),
    f.quoteCost + f.surplusRefund ≤ (balancesOf db trade.buyerUserId trade.symbol.quote).2 ∧
    f.baseQuantity ≤ (balancesOf db trade.sellerUserId trade.symbol.base).2 ∧
    0 ≤ (balancesOf db trade.sellerUserId trade.symbol.quote).1 + f.quoteCost

instance (trade : TradeExecutedEvent) (db : AccountsDb) : Decidable (Covered trade db) :=
  inferInstanceAs (Decidable (∀ _ ∈ figures _, _))

theorem nonNegative_empty : NonNegative .empty := by simp [NonNegative, AccountsDb.empty]

theorem nonNegative_insertAccount (h : NonNegative db) {account : Account}
    (hzero : account.balances = 0) : NonNegative (db.insertAccount account) := by
  intro a ha
  rcases List.mem_append.mp ha with ha | ha
  · exact h a ha
  · obtain rfl := List.mem_singleton.mp ha
    simp only [Account.balances, Prod.mk_eq_zero] at hzero
    simp [hzero.1, hzero.2]

theorem nonNegative_adjust (db : AccountsDb) {change : Uuid → Balances}
    (h : ∀ a ∈ db.accounts, 0 ≤ a.availableBalance + (change a.id).1 ∧
      0 ≤ a.lockedBalance + (change a.id).2) : NonNegative (db.adjust change) := by
  intro a ha
  obtain ⟨b, hb, rfl⟩ := List.mem_map.mp ha
  exact h b hb

private theorem nonNegative_commit {op : BalanceOperation} {params : BalanceParams}
    {account : Account} {prepared : AccountsDb} (hdb : WellFormed db) (h : NonNegative db)
    (hprepared : Prepared op.mutation params db account prepared) :
    NonNegative (op.mutation.commit params account prepared) := by
  have hwf := hprepared.wellFormed hdb
  have hfound := hprepared.findById hdb
  have hnonneg : NonNegative prepared := by
    cases hprepared with
    | found => exact h
    | opened => exact nonNegative_insertAccount h rfl
  rw [commit_eq hwf hfound]
  refine nonNegative_adjust prepared fun a ha => ?_
  by_cases hid : a.id = account.id
  · have ha' := hwf.findById_eq_some ha
    rw [hid, hfound] at ha'
    obtain rfl := Option.some.inj ha'
    obtain ⟨h1, h2⟩ := hnonneg _ ha
    have hupdated := updatedAccount_nonneg hprepared h1 h2
    simpa [leg, totalChange_cons, BalanceMutation.updatedAccount, Account.add] using hupdated
  · simpa [leg, totalChange_cons, Ne.symm hid] using hnonneg a ha

/-- The total of the legs on an account, by the owner of the account. -/
theorem totalChange_legs {envelope : DomainEventEnvelope} {trade : TradeExecutedEvent}
    {ids : Participant → Uuid} {writes : SettlementWrites} (hdb : WellFormed db)
    (hs : Settlement envelope trade ids writes db) (f : Figures) {a : Account}
    (ha : a ∈ db.accounts) : totalChange (legs f ids) a.id =
      (legOrder.map fun p => if trade.owner p = a.owner then f.change p else 0).sum := by
  have hiff : ∀ p, ids p = a.id ↔ trade.owner p = a.owner := by
    intro p
    obtain ⟨b, hb, howner⟩ := hs.owned p
    have hbm := lookup_mem hb
    rw [← howner, ← hbm.2]
    constructor
    · intro hid
      rw [hdb.ids.eq hbm.1 ha hid]
    · intro ho
      rw [hdb.owners.eq hbm.1 ha ho]
  simp [legs, legOrder, totalChange_cons, hiff]

private theorem nonNegative_settledDb {envelope : DomainEventEnvelope} {trade : TradeExecutedEvent}
    {ids : Participant → Uuid} {writes : SettlementWrites} {f : Figures} (hdb : WellFormed db)
    (h : NonNegative db) (hs : Settlement envelope trade ids writes db)
    (hf : figures (calculateSettlementAmounts trade) = some f) (haccepted : f.Accepted)
    (hcovered : Covered trade db) : NonNegative (settledDb envelope trade ids f db) := by
  refine nonNegative_adjust db fun a ha => ?_
  rw [totalChange_legs hdb hs f ha]
  obtain ⟨hbuyer, hbase, hquote⟩ := hcovered f hf
  have hbalances : ∀ userId currency, (userId, currency) = a.owner →
      balancesOf db userId currency = a.balances := by
    intro userId currency ho
    obtain ⟨rfl, rfl⟩ := Prod.mk.inj ho
    simp [balancesOf, hdb.findByUserAndCurrency_of_id (hdb.findById_eq_some ha)]
  have hb := hbalances trade.buyerUserId trade.symbol.quote
  have hsb := hbalances trade.sellerUserId trade.symbol.base
  have hsq := hbalances trade.sellerUserId trade.symbol.quote
  obtain ⟨havailable, hlocked⟩ := h a ha
  have husers := hs.users
  obtain ⟨hdeduction, hquantity, hsurplus⟩ := haccepted
  simp only [Account.owner, Account.balances, Prod.mk.injEq] at hb hsb hsq
  simp only [legOrder, TradeExecutedEvent.owner, Account.owner, Prod.mk.injEq, Figures.change,
    List.map_cons, List.map_nil, List.sum_cons, List.sum_nil]
  by_cases hbuyerId : trade.buyerUserId = a.userId
  · have hseller : trade.sellerUserId ≠ a.userId := fun he => husers (hbuyerId.trans he.symm)
    by_cases hq : trade.symbol.quote = a.currency
    · rw [hb ⟨hbuyerId, hq⟩] at hbuyer
      by_cases hbc : trade.symbol.base = a.currency <;>
        simp [hbuyerId, hseller, hq, hbc] <;> constructor <;> omega
    · by_cases hbc : trade.symbol.base = a.currency <;>
        simp [hbuyerId, hseller, hq, hbc] <;> constructor <;> omega
  · by_cases hseller : trade.sellerUserId = a.userId
    · by_cases hq : trade.symbol.quote = a.currency
      · rw [hsq ⟨hseller, hq⟩] at hquote
        by_cases hbc : trade.symbol.base = a.currency
        · rw [hsb ⟨hseller, hbc⟩] at hbase
          simp [hbuyerId, hseller, hq, hbc]
          constructor <;> omega
        · simp [hbuyerId, hseller, hq, hbc]
          constructor <;> omega
      · by_cases hbc : trade.symbol.base = a.currency
        · rw [hsb ⟨hseller, hbc⟩] at hbase
          simp [hbuyerId, hseller, hq, hbc]
          constructor <;> omega
        · simp [hbuyerId, hseller, hq, hbc]
          constructor <;> omega
    · simp [hbuyerId, hseller]
      exact ⟨havailable, hlocked⟩

/-- No balance falls below zero while settlements are covered. -/
theorem nonNegative_committed (hdb : WellFormed db) (h : NonNegative db)
    (hstep : Committed Covered db db') : NonNegative db' := by
  cases hstep with
  | opened hzero => exact nonNegative_insertAccount h hzero
  | mutated _ hprepared => exact nonNegative_commit hdb h hprepared
  | settled hs hcovered =>
    obtain ⟨f, hf, haccepted, heq⟩ := hs.commit_eq hdb
    rw [heq]
    exact nonNegative_settledDb hdb h hs hf haccepted hcovered

/-! ### The ledger replays to the balances -/

/-- The ledger accounts for the balances while every settled trade has two users and two
currencies. -/
theorem balanced_committed (hdb : WellFormed db) (h : (books db).Balanced)
    (hstep : Committed (fun trade _ => Distinct trade) db db') : (books db').Balanced := by
  cases hstep with
  | opened hzero hid =>
    rw [books_insertAccount hid hzero]
    exact h
  | mutated _ hprepared =>
    rw [books_commit hprepared hdb]
    exact h.post _ _
  | settled hs hdistinct =>
    obtain ⟨f, -, -, heq⟩ := hs.commit_eq hdb
    rw [heq, books_settledDb hs hdistinct]
    exact h.postAll _

/-- The ledger rows of one account, in commit order. -/
def ledgerOf (db : AccountsDb) (id : Uuid) : List LedgerTransaction :=
  db.ledgerTransactions.filter fun t => t.accountId = id

theorem postings_books (id : Uuid) : (books db).postings id = (ledgerOf db id).map posting := by
  simp only [Books.postings, books, ledgerOf, List.filter_map]
  rfl

/-- In balanced books every account holds what its rows add up to, and every row records
the sum up to it. -/
structure LedgerReplays (db : AccountsDb) : Prop where
  available : ∀ a ∈ db.accounts,
    a.availableBalance = ((ledgerOf db a.id).map LedgerTransaction.availableDelta).sum
  locked : ∀ a ∈ db.accounts,
    a.lockedBalance = ((ledgerOf db a.id).map LedgerTransaction.lockedDelta).sum
  prefixes : ∀ a ∈ db.accounts, ∀ earlier t later, ledgerOf db a.id = earlier ++ t :: later →
    t.balanceAfterAvailable = ((earlier ++ [t]).map LedgerTransaction.availableDelta).sum ∧
    t.balanceAfterLocked = ((earlier ++ [t]).map LedgerTransaction.lockedDelta).sum

private theorem sum_posting (ts : List LedgerTransaction) :
    ((ts.map posting).map Posting.change).sum =
      ((ts.map LedgerTransaction.availableDelta).sum, (ts.map LedgerTransaction.lockedDelta).sum) := by
  induction ts with
  | nil => rfl
  | cons t ts ih =>
    simp only [List.map_cons, List.sum_cons, ih]
    rfl

theorem ledgerReplays_of_balanced (hdb : WellFormed db) (h : (books db).Balanced) :
    LedgerReplays db := by
  have hsum : ∀ a ∈ db.accounts, a.balances =
      (((ledgerOf db a.id).map LedgerTransaction.availableDelta).sum,
        ((ledgerOf db a.id).map LedgerTransaction.lockedDelta).sum) := by
    intro a ha
    rw [← books_balance (hdb.findById_eq_some ha), h.balance_eq, postings_books, sum_posting]
  refine ⟨fun a ha => (Prod.mk.inj (hsum a ha)).1, fun a ha => (Prod.mk.inj (hsum a ha)).2, ?_⟩
  intro a ha earlier t later ht
  have hafter := h.balanceAfter_eq a.id (earlier.map posting) (posting t) (later.map posting)
    (by rw [postings_books, ht]; simp)
  have hmap : earlier.map posting ++ [posting t] = (earlier ++ [t]).map posting := by simp
  rw [hmap, sum_posting] at hafter
  exact Prod.mk.inj hafter

/-! ### Conservation of supply -/

/-- What the accounts of a currency hold, available and locked. -/
def supply (db : AccountsDb) (currency : Currency) : ℤ :=
  ((db.accounts.filter fun a => a.currency = currency).map
    fun a => a.availableBalance + a.lockedBalance).sum

/-- The total amount of the ledger rows of the given types in a currency. -/
def applied (db : AccountsDb) (currency : Currency) (types : List LedgerTransactionType) : ℤ :=
  ((db.ledgerTransactions.filter fun t => t.currency = currency ∧ t.type ∈ types).map
    LedgerTransaction.amount).sum

/-- What the ledger rows of a currency add to its supply. -/
def recorded (ts : List LedgerTransaction) (currency : Currency) : ℤ :=
  ((ts.filter fun t => t.currency = currency).map fun t => t.availableDelta + t.lockedDelta).sum

/-- What ledger rows bring into a currency from outside, less what they take out. -/
def external (ts : List LedgerTransaction) (currency : Currency) : ℤ :=
  ((ts.filter fun t => t.currency = currency ∧ t.type ∈ [.deposit, .onChainDeposit]).map
      LedgerTransaction.amount).sum -
    ((ts.filter fun t => t.currency = currency ∧ t.type ∈ [.withdrawal]).map
      LedgerTransaction.amount).sum

theorem recorded_append (ts us : List LedgerTransaction) (currency : Currency) :
    recorded (ts ++ us) currency = recorded ts currency + recorded us currency := by
  simp [recorded, List.filter_append]

theorem external_append (ts us : List LedgerTransaction) (currency : Currency) :
    external (ts ++ us) currency = external ts currency + external us currency := by
  simp only [external, List.filter_append, List.map_append, List.sum_append]
  omega

/-- Only deposits and withdrawals move the supply. -/
theorem recorded_ledgerTransaction (op : BalanceOperation) (params : BalanceParams) (a : Account)
    (currency : Currency) : recorded [op.mutation.ledgerTransaction params a] currency =
      external [op.mutation.ledgerTransaction params a] currency := by
  by_cases hc : params.currency = currency <;>
    cases op <;>
      simp [recorded, external, BalanceMutation.ledgerTransaction, BalanceOperation.mutation,
        depositMutation, lockMutation, unlockMutation, creditDepositMutation,
        debitWithdrawalMutation, hc]

/-- The four rows of a settlement cancel in each currency. -/
theorem recorded_entries (trade : TradeExecutedEvent) (f : Figures) (ids : Participant → Uuid)
    (after : Uuid → Balances) (currency : Currency) :
    recorded (legOrder.map (entry trade f ids after)) currency =
      external (legOrder.map (entry trade f ids after)) currency := by
  by_cases hb : trade.symbol.base = currency <;> by_cases hq : trade.symbol.quote = currency <;>
    simp [recorded, external, legOrder, entry, TradeExecutedEvent.owner, Figures.change, hb, hq]

/-- The ledger moves the supply of each currency by deposits and withdrawals only. -/
def LedgerConserves (db : AccountsDb) : Prop :=
  ∀ currency, recorded db.ledgerTransactions currency = external db.ledgerTransactions currency

theorem ledgerConserves_committed (hdb : WellFormed db) (h : LedgerConserves db)
    (hstep : Committed G db db') : LedgerConserves db' := by
  intro currency
  cases hstep with
  | opened => exact h currency
  | mutated _ hprepared =>
    simp only [BalanceMutation.commit, AccountsDb.insertLedgerTransactions, AccountsDb.install]
    rw [hprepared.ledgerTransactions_eq, recorded_append, external_append, h currency,
      recorded_ledgerTransaction]
  | settled hs =>
    obtain ⟨f, -, -, heq⟩ := hs.commit_eq hdb
    rw [heq]
    simp only [settledDb, AccountsDb.markEventProcessed, AccountsDb.insertLedgerTransactions,
      AccountsDb.adjust]
    rw [recorded_append, external_append, h currency, recorded_entries]

/-- With balanced books the accounts of a currency hold what its ledger rows add up to. -/
theorem supply_eq_recorded (hdb : WellFormed db) (h : (books db).Balanced) (currency : Currency) :
    supply db currency = recorded db.ledgerTransactions currency := by
  have hnodup : ((db.accounts.filter fun a => a.currency = currency).map Account.id).Nodup :=
    hdb.ids.sublist (List.filter_sublist.map _)
  have hsum := h.sum_balance hnodup
  have hleft : ((db.accounts.filter fun a => a.currency = currency).map Account.id).map
      (books db).balance = (db.accounts.filter fun a => a.currency = currency).map
        Account.balances := by
    rw [List.map_map]
    apply List.map_congr_left
    intro a ha
    exact books_balance (hdb.findById_eq_some (List.mem_of_mem_filter ha))
  have hright : ((books db).journal.filter fun p =>
      p.account ∈ (db.accounts.filter fun a => a.currency = currency).map Account.id) =
      (db.ledgerTransactions.filter fun t => t.currency = currency).map posting := by
    simp only [books, List.filter_map]
    congr 1
    apply List.filter_congr
    intro t ht
    obtain ⟨a, ha, howner⟩ := hdb.ledgerOwners t ht
    have hcurrency : a.currency = t.currency := (Prod.mk.inj howner).2
    have hmem := lookup_mem ha
    refine decide_eq_decide.mpr ?_
    simp only [posting, List.mem_map, List.mem_filter, decide_eq_true_eq]
    constructor
    · rintro ⟨b, ⟨hb, hbc⟩, hid⟩
      obtain rfl := hdb.ids.eq hb hmem.1 (hid.trans hmem.2.symm)
      exact hcurrency.symm.trans hbc
    · intro hc
      exact ⟨a, ⟨hmem.1, hcurrency.trans hc⟩, hmem.2⟩
  rw [hleft, hright, sum_posting] at hsum
  have hsplit : ∀ as : List Account, (as.map fun a => a.availableBalance + a.lockedBalance).sum =
      (as.map Account.balances).sum.1 + (as.map Account.balances).sum.2 := by
    intro as
    induction as with
    | nil => rfl
    | cons a as ih =>
      simp only [List.map_cons, List.sum_cons, ih, Account.balances, Prod.fst_add, Prod.snd_add]
      omega
  have hrecorded : ∀ ts : List LedgerTransaction,
      (ts.map fun t => t.availableDelta + t.lockedDelta).sum =
        (ts.map LedgerTransaction.availableDelta).sum +
          (ts.map LedgerTransaction.lockedDelta).sum := by
    intro ts
    induction ts with
    | nil => rfl
    | cons t ts ih =>
      simp only [List.map_cons, List.sum_cons, ih]
      omega
  rw [supply, hsplit, hsum, recorded, hrecorded]

/-- What is held is what was deposited less what was withdrawn. -/
theorem supply_conserved (hdb : WellFormed db) (h : (books db).Balanced) (hl : LedgerConserves db)
    (currency : Currency) : supply db currency =
      applied db currency [.deposit, .onChainDeposit] - applied db currency [.withdrawal] := by
  rw [supply_eq_recorded hdb h, hl currency]
  rfl

end EtherTrade.AccountsDbHistory
