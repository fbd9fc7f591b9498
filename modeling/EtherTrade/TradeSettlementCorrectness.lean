import EtherTrade.AccountsDbInvariants
import EtherTrade.TradeSettlement

/-!
# What a settlement does

A settlement that commits changes the four accounts of its trade by its legs, writes
one ledger row for each of them and marks its event. Every figure in the ledger is the
figure the balances moved by.
-/

namespace EtherTrade.TradeSettlementCorrectness

open DecimalNumbers KeyedRows AccountsSchema PostedJournals AccountsDbInvariants TradeSettlement

/-- The amounts of a settlement as the database reads them. -/
structure Figures where
  quoteCost : ℤ
  baseQuantity : ℤ
  surplusRefund : ℤ
  deriving DecidableEq, Repr

def figures (amounts : SettlementAmounts) : Option Figures := do
  let quoteCost ← amounts.quoteCost.toNumeric
  let baseQuantity ← amounts.baseQuantity.toNumeric
  let surplusRefund ← amounts.surplusRefund.toNumeric
  return ⟨quoteCost, baseQuantity, surplusRefund⟩

namespace Figures

variable (f : Figures)

/-- What a settlement moves on each account. -/
def change : Participant → Balances
  | .buyerQuote => (f.surplusRefund, -(f.quoteCost + f.surplusRefund))
  | .buyerBase => (f.baseQuantity, 0)
  | .sellerBase => (0, -f.baseQuantity)
  | .sellerQuote => (f.quoteCost, 0)

def amount : Participant → ℤ
  | .buyerQuote => f.quoteCost
  | .buyerBase => f.baseQuantity
  | .sellerBase => f.baseQuantity
  | .sellerQuote => f.quoteCost

end Figures

/-- The order of the updates and of the ledger rows. -/
def legOrder : List Participant := [.buyerQuote, .buyerBase, .sellerBase, .sellerQuote]

theorem mem_legOrder (p : Participant) : p ∈ legOrder := by cases p <;> decide

def legs (f : Figures) (ids : Participant → Uuid) : List (Uuid × Balances) :=
  legOrder.map fun p => (ids p, f.change p)

def entry (trade : TradeExecutedEvent) (f : Figures) (ids : Participant → Uuid)
    (after : Uuid → Balances) (p : Participant) : LedgerTransaction where
  accountId := ids p
  userId := (trade.owner p).1
  currency := (trade.owner p).2
  type := .tradeSettlement
  amount := f.amount p
  availableDelta := (f.change p).1
  lockedDelta := (f.change p).2
  balanceAfterAvailable := (after (ids p)).1
  balanceAfterLocked := (after (ids p)).2
  idempotencyKey := none
  referenceId := some trade.tradeId

variable {db : AccountsDb} {trade : TradeExecutedEvent} {ids : Participant → Uuid}
  {locked : List Account} {writes : SettlementWrites} {envelope : DomainEventEnvelope}

theorem settlementLegs_eq (amounts : SettlementAmounts) :
    settlementLegs amounts ids = (figures amounts).map fun f => legs f ids := by
  unfold settlementLegs figures
  cases amounts.quoteCost.toNumeric with
  | none => rfl
  | some c =>
    cases amounts.baseQuantity.toNumeric with
    | none => rfl
    | some q => cases amounts.surplusRefund.toNumeric <;> rfl

theorem runUpdates_fst (changes : List (Uuid × Balances)) (rows : List Account) :
    (runUpdates changes rows).1 = rows.map fun a => a.add (totalChange changes a.id) := by
  induction changes generalizing rows with
  | nil => simp [runUpdates]
  | cons leg changes ih =>
    obtain ⟨id, change⟩ := leg
    simp only [runUpdates, updateById, ih, List.map_map]
    apply List.map_congr_left
    intro a _
    by_cases h : id = a.id
    · simp [totalChange_cons, h, Account.add_add]
    · simp [totalChange_cons, h, Ne.symm h]

theorem runUpdates_snd (changes : List (Uuid × Balances)) (rows : List Account) :
    (runUpdates changes rows).2.map Prod.fst = changes.map Prod.fst := by
  induction changes generalizing rows with
  | nil => rfl
  | cons leg changes ih => simp [runUpdates, ih]

private theorem filter_returned_eq_nil {changes : List (Uuid × Balances)} {rows : List Account}
    {id : Uuid} (h : id ∉ changes.map Prod.fst) :
    ((runUpdates changes rows).2.filter fun r => r.1 = id) = [] := by
  rw [List.filter_eq_nil_iff]
  intro r hr
  have hmem : r.1 ∈ changes.map Prod.fst := by
    rw [← runUpdates_snd changes rows]
    exact List.mem_map_of_mem hr
  simp only [decide_eq_true_eq]
  rintro rfl
  exact h hmem

theorem lookup_updateById {rows : List Account} {a : Account} (ha : lookup Account.id rows a.id = some a)
    (id : Uuid) (change : Balances) : lookup Account.id (updateById id change rows) a.id =
      some (if a.id = id then a.add change else a) := by
  rw [updateById, lookup_map, ha, Option.map_some]
  intro r _
  split <;> rfl

/-- The balances recorded for an account are its balances after the last update. -/
theorem afterBalances_runUpdates (changes : List (Uuid × Balances)) (rows : List Account)
    {a : Account} (ha : lookup Account.id rows a.id = some a)
    (hmem : a.id ∈ changes.map Prod.fst) :
    afterBalances (runUpdates changes rows).2 a.id =
      a.balances + totalChange changes a.id := by
  induction changes generalizing rows a with
  | nil => simp at hmem
  | cons leg changes ih =>
    obtain ⟨id, change⟩ := leg
    have hupdated := lookup_updateById ha id change
    by_cases hid : a.id = id
    · subst hid
      rw [if_pos rfl] at hupdated
      by_cases hlater : a.id ∈ changes.map Prod.fst
      · have hne : ((runUpdates changes (updateById a.id change rows)).2.filter
            fun r => r.1 = a.id) ≠ [] := by
          rw [← runUpdates_snd changes (updateById a.id change rows)] at hlater
          obtain ⟨r, hr, hid⟩ := List.mem_map.mp hlater
          exact List.ne_nil_of_mem (List.mem_filter.mpr ⟨hr, by simpa using hid⟩)
        have h := ih (a := a.add change) _ hupdated hlater
        simp only [afterBalances, runUpdates, List.filter_cons, decide_true, if_true,
          List.getLast?_cons_of_ne_nil hne] at h ⊢
        rw [Account.add_id] at h
        rw [h, totalChange_cons, if_pos rfl, Account.add_balances, add_assoc]
      · simp only [afterBalances, runUpdates, List.filter_cons, decide_true, if_true,
          filter_returned_eq_nil hlater, List.getLast?_singleton, hupdated]
        rw [totalChange_cons, if_pos rfl, totalChange_of_notMem hlater, add_zero,
          Account.add_balances]
    · rw [if_neg hid] at hupdated
      have hlater : a.id ∈ changes.map Prod.fst := by simpa [hid] using hmem
      have h := ih _ hupdated hlater
      rw [totalChange_cons, if_neg (Ne.symm hid), zero_add, ← h]
      simp [afterBalances, runUpdates, Ne.symm hid]

/-- The balances in a list of rows. -/
def balancesIn (rows : List Account) (id : Uuid) : Balances :=
  ((lookup Account.id rows id).map Account.balances).getD 0

theorem figures_eq_some {amounts : SettlementAmounts} {f : Figures} (h : figures amounts = some f) :
    amounts.quoteCost.toNumeric = some f.quoteCost ∧
      amounts.baseQuantity.toNumeric = some f.baseQuantity ∧
      amounts.surplusRefund.toNumeric = some f.surplusRefund := by
  simp only [figures, Option.bind_eq_bind, Option.bind_eq_some_iff, Option.pure_def] at h
  obtain ⟨c, hc, q, hq, r, hr, hf⟩ := h
  obtain rfl := Option.some.inj hf
  exact ⟨hc, hq, hr⟩

/-- A quantity that the ledger takes behind a minus sign is not negative, and then neither
is the surplus refund. -/
theorem surplusRefund_nonneg {f : Figures} (hf : figures (calculateSettlementAmounts trade) = some f)
    (hentries : (calculateSettlementAmounts trade).baseQuantity.withMinus.toNumeric.isSome) :
    0 ≤ f.surplusRefund := by
  obtain ⟨hcost, -, hsurplus⟩ := figures_eq_some hf
  simp only [calculateSettlementAmounts] at hcost hsurplus hentries
  cases hquantity : trade.quantity with
  | nan => simp [hquantity, BigNumber.toFixed, NumericText.withMinus, NumericText.toNumeric] at hentries
  | infinite s =>
    simp [hquantity, BigNumber.toFixed, NumericText.withMinus, NumericText.toNumeric] at hentries
  | finite q =>
    have hq : 0 ≤ q := by
      by_contra hneg
      simp only [hquantity, BigNumber.toFixed, not_le.mp hneg, if_true, NumericText.withMinus,
        NumericText.toNumeric, Option.isSome_none, Bool.false_eq_true] at hentries
    rw [hquantity] at hcost hsurplus
    by_cases hgt : trade.buyerLimitPrice.isGreaterThan trade.price = true
    · rw [if_pos hgt] at hsurplus
      cases hlimit : trade.buyerLimitPrice with
      | nan => simp [hlimit, BigNumber.isGreaterThan] at hgt
      | infinite s =>
        rw [hlimit] at hsurplus
        cases hprice : trade.price with
        | nan => simp [hlimit, hprice, BigNumber.isGreaterThan] at hgt
        | infinite t =>
          rw [hprice] at hcost
          simp only [BigNumber.multipliedBy] at hcost
          split at hcost <;> cases hcost
        | finite p =>
          rw [hprice] at hsurplus
          simp only [BigNumber.minus, BigNumber.negated, BigNumber.plus, BigNumber.multipliedBy]
            at hsurplus
          split at hsurplus <;> cases hsurplus
      | finite l =>
        cases hprice : trade.price with
        | nan => simp [hlimit, hprice, BigNumber.isGreaterThan] at hgt
        | infinite t =>
          rw [hprice] at hcost
          simp only [BigNumber.multipliedBy] at hcost
          split at hcost <;> cases hcost
        | finite p =>
          rw [hlimit, hprice] at hsurplus hgt
          have hlp : p < l := by simpa [BigNumber.isGreaterThan] using hgt
          have hnonneg : 0 ≤ (l + -p) * q := mul_nonneg (by linarith) hq
          simp only [BigNumber.minus, BigNumber.negated, BigNumber.plus, BigNumber.multipliedBy,
            toNumeric_toFixed hnonneg, Option.some.injEq] at hsurplus
          rw [← hsurplus]
          exact roundDown_nonneg hnonneg
    · rw [if_neg hgt] at hsurplus
      exact (Option.some.inj hsurplus).le

/-- Figures that the ledger accepts. -/
structure Figures.Accepted (f : Figures) : Prop where
  deduction : 0 ≤ f.quoteCost + f.surplusRefund
  quantity : 0 ≤ f.baseQuantity
  surplus : 0 ≤ f.surplusRefund

/-- Texts that the ledger accepts become rows with the figures of their legs. -/
theorem ledgerTransactions_eq_some {f : Figures} {after : Uuid → Balances}
    {ts : List LedgerTransaction} (hf : figures (calculateSettlementAmounts trade) = some f)
    (h : (buildSettlementLedgerParams trade (calculateSettlementAmounts trade) ids).mapM
      (fun e => e.toLedgerTransaction (after e.accountId)) = some ts) :
    f.Accepted ∧ ts = legOrder.map (entry trade f ids after) := by
  obtain ⟨hcost, hquantity, hsurplus⟩ := figures_eq_some hf
  have hdeduction := toNumeric_withMinus_plus hcost hsurplus
  have hzero : NumericText.zero.toNumeric = some 0 := rfl
  cases hdebit : (calculateSettlementAmounts trade).baseQuantity.withMinus.toNumeric with
  | none =>
    simp [buildSettlementLedgerParams, SettlementLedgerEntry.toLedgerTransaction, hcost, hquantity,
      hsurplus, hdebit, buyerLockedDeduction] at h
  | some n =>
    obtain ⟨hn, hneg⟩ := toNumeric_of_withMinus hdebit
    obtain hbase : f.baseQuantity = -n := Option.some.inj (hquantity.symm.trans hn)
    by_cases hsum : 0 ≤ f.quoteCost + f.surplusRefund
    · rw [if_pos hsum] at hdeduction
      simp only [buildSettlementLedgerParams, SettlementLedgerEntry.toLedgerTransaction, hcost,
        hquantity, hsurplus, hdebit, buyerLockedDeduction, hdeduction, hzero, List.mapM_cons,
        List.mapM_nil, Option.bind_eq_bind, Option.bind_some, Option.pure_def,
        Option.some.injEq] at h
      refine ⟨⟨hsum, by omega, surplusRefund_nonneg hf (by simp [hdebit])⟩, ?_⟩
      rw [← h]
      simp [legOrder, entry, Figures.change, Figures.amount, TradeExecutedEvent.owner, hbase,
        calculateSettlementAmounts]
    · rw [if_neg hsum] at hdeduction
      simp [buildSettlementLedgerParams, SettlementLedgerEntry.toLedgerTransaction, hcost,
        hsurplus, buyerLockedDeduction, hdeduction] at h

/-- What a settlement writes, from the rows it has locked. -/
theorem settlementWrites_eq_some (h : settlementWrites trade ids locked = some writes)
    (hlocked : ∀ p, (lookup Account.id locked (ids p)).isSome) :
    ∃ f, figures (calculateSettlementAmounts trade) = some f ∧ f.Accepted ∧
      writes.versions = locked.map (fun a => a.add (totalChange (legs f ids) a.id)) ∧
      writes.entries = legOrder.map
        (entry trade f ids fun id => balancesIn locked id + totalChange (legs f ids) id) := by
  simp only [settlementWrites, settlementLegs_eq, Option.bind_eq_bind, Option.bind_eq_some_iff,
    Option.map_eq_some_iff, Option.pure_def, Option.some.injEq] at h
  obtain ⟨_, ⟨f, hf, rfl⟩, ts, hts, rfl⟩ := h
  obtain ⟨haccepted, rfl⟩ := ledgerTransactions_eq_some hf hts
  refine ⟨f, hf, haccepted, runUpdates_fst _ _, ?_⟩
  apply List.map_congr_left
  intro p _
  obtain ⟨a, ha⟩ := Option.isSome_iff_exists.mp (hlocked p)
  have hid : a.id = ids p := (lookup_mem ha).2
  have hmem : a.id ∈ (legs f ids).map Prod.fst := by
    rw [hid, legs, List.map_map]
    exact List.mem_map_of_mem (mem_legOrder p)
  have hafter := afterBalances_runUpdates (legs f ids) locked (by rw [hid]; exact ha) hmem
  rw [hid] at hafter
  simp only [entry, hafter, balancesIn, ha, Option.map_some, Option.getD_some]

theorem mem_lockOrder {id : Uuid} : id ∈ lockOrder ids ↔ ∃ p, ids p = id := by
  simp only [lockOrder, List.mem_insertionSort, List.mem_dedup, List.mem_map]
  constructor
  · rintro ⟨p, -, hp⟩
    exact ⟨p, hp⟩
  · rintro ⟨p, hp⟩
    exact ⟨p, p.mem_all, hp⟩

theorem lookup_filterMap_findById {order : List Uuid} {id : Uuid} (hid : id ∈ order) :
    lookup Account.id (order.filterMap db.findById) id = db.findById id := by
  induction order with
  | nil => simp at hid
  | cons i order ih =>
    by_cases hi : i = id
    · subst hi
      cases ha : db.findById i with
      | none =>
        rw [List.filterMap_cons_none ha, lookup_eq_none]
        intro a hmem hai
        obtain ⟨j, -, hj⟩ := List.mem_filterMap.mp hmem
        have hji : j = i := (findById_id hj).symm.trans hai
        rw [hji, ha] at hj
        cases hj
      | some a => simp [List.filterMap_cons_some ha, lookup, findById_id ha]
    · have hid : id ∈ order := by simpa [Ne.symm hi] using hid
      cases ha : db.findById i with
      | none => rw [List.filterMap_cons_none ha, ih hid]
      | some a =>
        rw [List.filterMap_cons_some ha, ← ih hid]
        simp [lookup, findById_id ha, hi]

theorem lookup_selectLocked (p : Participant) :
    lookup Account.id (selectLocked ids db) (ids p) = db.findById (ids p) :=
  lookup_filterMap_findById (mem_lockOrder.mpr ⟨p, rfl⟩)

theorem acceptMessage_users {payload : KafkaBatchConsumerPayload} {envelope : DomainEventEnvelope}
    {trade : TradeExecutedEvent} (h : acceptMessage payload = .inr (envelope, trade)) :
    trade.buyerUserId ≠ trade.sellerUserId := by
  unfold acceptMessage at h
  split at h
  · cases h
  · split at h
    · cases h
    · split at h
      · cases h
      · split at h
        · cases h
        · split at h
          · cases h
          · next husers =>
            obtain ⟨-, rfl⟩ := Prod.mk.inj (Sum.inr.inj h)
            exact husers

/-- The ids are those of the accounts of the trade. -/
def Owned (trade : TradeExecutedEvent) (ids : Participant → Uuid) (db : AccountsDb) : Prop :=
  ∀ p, ∃ a, db.findById (ids p) = some a ∧ a.owner = trade.owner p

/-- A settlement whose statements have all succeeded. -/
structure Settlement (envelope : DomainEventEnvelope) (trade : TradeExecutedEvent)
    (ids : Participant → Uuid) (writes : SettlementWrites) (db : AccountsDb) : Prop where
  users : trade.buyerUserId ≠ trade.sellerUserId
  unprocessed : db.findProcessedEvent envelope.eventId = none
  owned : Owned trade ids db
  writes_eq : settlementWrites trade ids (selectLocked ids db) = some writes

/-- The trade has two users and two currencies. -/
structure Distinct (trade : TradeExecutedEvent) : Prop where
  users : trade.buyerUserId ≠ trade.sellerUserId
  currencies : trade.symbol.base ≠ trade.symbol.quote

instance (trade : TradeExecutedEvent) : Decidable (Distinct trade) :=
  decidable_of_iff (trade.buyerUserId ≠ trade.sellerUserId ∧ trade.symbol.base ≠ trade.symbol.quote)
    ⟨fun h => ⟨h.1, h.2⟩, fun h => ⟨h.users, h.currencies⟩⟩

theorem Distinct.owner_injective (h : Distinct trade) : Function.Injective trade.owner := by
  have hu := h.users
  have hc := h.currencies
  intro p q hpq
  cases p <;> cases q <;>
    simp_all [TradeExecutedEvent.owner, Ne.symm hu, Ne.symm hc]

theorem Owned.ids_injective (ho : Owned trade ids db) (hd : Distinct trade) :
    Function.Injective ids := by
  intro p q hpq
  obtain ⟨a, ha, hp⟩ := ho p
  obtain ⟨b, hb, hq⟩ := ho q
  rw [hpq, hb] at ha
  obtain rfl := Option.some.inj ha
  exact hd.owner_injective (hp.symm.trans hq)

/-- The database after a settlement, in terms of the database before it. -/
def settledDb (envelope : DomainEventEnvelope) (trade : TradeExecutedEvent)
    (ids : Participant → Uuid) (f : Figures) (db : AccountsDb) : AccountsDb :=
  ((db.adjust (totalChange (legs f ids))).insertLedgerTransactions (legOrder.map
    (entry trade f ids fun id => (books db).balance id + totalChange (legs f ids) id))).markEventProcessed
      (processedEvent envelope)

theorem legs_fst (f : Figures) : (legs f ids).map Prod.fst = legOrder.map ids := by
  simp [legs]

theorem Settlement.commit_eq (hs : Settlement envelope trade ids writes db) (hdb : WellFormed db) :
    ∃ f, figures (calculateSettlementAmounts trade) = some f ∧ f.Accepted ∧
      commitSettlement envelope writes db = settledDb envelope trade ids f db := by
  have hlocked : ∀ p, (lookup Account.id (selectLocked ids db) (ids p)).isSome := by
    intro p
    obtain ⟨a, ha, -⟩ := hs.owned p
    simp [lookup_selectLocked, ha]
  obtain ⟨f, hf, haccepted, hversions, hentries⟩ :=
    settlementWrites_eq_some hs.writes_eq hlocked
  refine ⟨f, hf, haccepted, ?_⟩
  have hinstall : db.install writes.versions = db.adjust (totalChange (legs f ids)) := by
    rw [hversions]
    apply install_eq_adjust hdb
    · intro a ha
      obtain ⟨id, -, hid⟩ := List.mem_filterMap.mp ha
      rwa [findById_id hid]
    · intro id hid
      apply totalChange_of_notMem
      rw [legs_fst]
      rintro hmem
      obtain ⟨p, -, rfl⟩ := List.mem_map.mp hmem
      have hnone := lookup_eq_none.mpr hid
      obtain ⟨a, ha, -⟩ := hs.owned p
      rw [lookup_selectLocked, ha] at hnone
      cases hnone
  have hentry : writes.entries = legOrder.map
      (entry trade f ids fun id => (books db).balance id + totalChange (legs f ids) id) := by
    rw [hentries]
    apply List.map_congr_left
    intro p _
    simp only [entry, balancesIn, lookup_selectLocked, books]
  rw [commitSettlement, hinstall, hentry, settledDb]

theorem wellFormed_settledDb {f : Figures} (hs : Settlement envelope trade ids writes db)
    (hdb : WellFormed db) : WellFormed (settledDb envelope trade ids f db) := by
  refine (hdb.adjust.insertLedgerTransactions ?_ ?_ ?_).markEventProcessed hs.unprocessed
  · simp [legOrder, entry]
  · intro t ht k hk
    obtain ⟨p, -, rfl⟩ := List.mem_map.mp ht
    cases hk
  · intro t ht
    obtain ⟨p, -, rfl⟩ := List.mem_map.mp ht
    obtain ⟨a, ha, howner⟩ := hs.owned p
    refine ⟨a.add (totalChange (legs f ids) a.id), ?_, howner⟩
    rw [findById_adjust]
    simp [entry, ha]

theorem findLedger_settledDb {f : Figures} (key : String) :
    (settledDb envelope trade ids f db).findLedgerByIdempotencyKey key =
      db.findLedgerByIdempotencyKey key := by
  simp [settledDb, AccountsDb.markEventProcessed, AccountsDb.insertLedgerTransactions,
    AccountsDb.adjust, AccountsDb.findLedgerByIdempotencyKey, lookup, List.find?_append, legOrder,
    entry]

theorem isEventProcessed_settledDb {f : Figures} (eventId : Uuid) :
    (settledDb envelope trade ids f db).isEventProcessed eventId =
      (db.isEventProcessed eventId || decide (envelope.eventId = eventId)) :=
  isEventProcessed_markEventProcessed eventId (processedEvent envelope)

/-- A settlement of a trade with two users and two currencies posts its four legs. -/
theorem books_settledDb {f : Figures} (hs : Settlement envelope trade ids writes db)
    (hd : Distinct trade) :
    books (settledDb envelope trade ids f db) = (books db).postAll (legs f ids) := by
  have hinj := hs.owned.ids_injective hd
  have hnodup : ((legs f ids).map Prod.fst).Nodup := by
    rw [legs_fst]
    exact (by decide : legOrder.Nodup).map hinj
  refine books_postAll hnodup ?_ ?_
  · intro leg hleg
    obtain ⟨p, -, rfl⟩ := List.mem_map.mp hleg
    obtain ⟨a, ha, -⟩ := hs.owned p
    simp [ha]
  · have hchange : ∀ p, totalChange (legs f ids) (ids p) = f.change p := by
      intro p
      cases p <;>
        simp [legs, legOrder, totalChange_cons, hinj.eq_iff]
    simp only [legs, List.map_map]
    apply List.map_congr_left
    intro p _
    have h := hchange p
    simp only [legs] at h
    simp only [posting, entry, LedgerTransaction.change, LedgerTransaction.balancesAfter,
      Function.comp_apply, h]

end EtherTrade.TradeSettlementCorrectness
