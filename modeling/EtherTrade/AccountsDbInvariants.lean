import EtherTrade.AccountsSchema
import EtherTrade.PostedJournals

/-!
# Lookups and constraints of the accounts database

How the writes of a transaction show in later lookups, and which constraints hold of
every database: the unique indexes, and that each ledger row belongs to an account of
the same user and currency. The books of a database are its balances and its ledger.
-/

namespace EtherTrade.AccountsDbInvariants

open DecimalNumbers KeyedRows AccountsSchema PostedJournals

variable {db : AccountsDb} {a account : Account} {id userId : Uuid} {currency : Currency}
  {change : Uuid → Balances}

theorem findById_id (h : db.findById id = some a) : a.id = id := (lookup_mem h).2

theorem findByUserAndCurrency_owner (h : db.findByUserAndCurrency userId currency = some a) :
    a.owner = (userId, currency) := (lookup_mem h).2

theorem findById_insertAccount : (db.insertAccount a).findById id =
    (db.findById id).or (if a.id = id then some a else none) := lookup_append_singleton

theorem findById_insertAccount_of_some (h : db.findById id = some account) :
    (db.insertAccount a).findById id = some account := by
  rw [findById_insertAccount, h, Option.some_or]

theorem findByUserAndCurrency_insertAccount :
    (db.insertAccount a).findByUserAndCurrency userId currency =
      (db.findByUserAndCurrency userId currency).or
        (if a.owner = (userId, currency) then some a else none) := lookup_append_singleton

theorem findById_adjust : (db.adjust change).findById id =
    (db.findById id).map fun a => a.add (change a.id) :=
  lookup_map fun _ _ => rfl

theorem findByUserAndCurrency_adjust :
    (db.adjust change).findByUserAndCurrency userId currency =
      (db.findByUserAndCurrency userId currency).map fun a => a.add (change a.id) :=
  lookup_map fun _ _ => rfl

@[simp] theorem findById_insertLedgerTransactions (ts : List LedgerTransaction) :
    (db.insertLedgerTransactions ts).findById id = db.findById id := rfl

@[simp] theorem findByUserAndCurrency_insertLedgerTransactions (ts : List LedgerTransaction) :
    (db.insertLedgerTransactions ts).findByUserAndCurrency userId currency =
      db.findByUserAndCurrency userId currency := rfl

@[simp] theorem findById_markEventProcessed (e : ProcessedEvent) :
    (db.markEventProcessed e).findById id = db.findById id := rfl

@[simp] theorem findByUserAndCurrency_markEventProcessed (e : ProcessedEvent) :
    (db.markEventProcessed e).findByUserAndCurrency userId currency =
      db.findByUserAndCurrency userId currency := rfl

theorem isEventProcessed_markEventProcessed (eventId : Uuid) (e : ProcessedEvent) :
    (db.markEventProcessed e).isEventProcessed eventId =
      (db.isEventProcessed eventId || decide (e.eventId = eventId)) := by
  simp only [AccountsDb.isEventProcessed, AccountsDb.findProcessedEvent,
    AccountsDb.markEventProcessed, lookup_append_singleton]
  by_cases h : e.eventId = eventId <;> simp [h]

/-- The constraints of the schema. A ledger row's user and currency repeat those of its
account. -/
structure WellFormed (db : AccountsDb) : Prop where
  ids : KeyUnique Account.id db.accounts
  owners : KeyUnique Account.owner db.accounts
  idempotencyKeys : (db.ledgerTransactions.filterMap LedgerTransaction.idempotencyKey).Nodup
  eventIds : KeyUnique ProcessedEvent.eventId db.processedEvents
  ledgerOwners : ∀ t ∈ db.ledgerTransactions, ∃ a, db.findById t.accountId = some a ∧
    a.owner = (t.userId, t.currency)

theorem wellFormed_empty : WellFormed .empty where
  ids := keyUnique_nil
  owners := keyUnique_nil
  idempotencyKeys := List.nodup_nil
  eventIds := keyUnique_nil
  ledgerOwners := by simp [AccountsDb.empty]

namespace WellFormed

theorem findById_eq_some (h : WellFormed db) (ha : a ∈ db.accounts) : db.findById a.id = some a :=
  (lookup_eq_some h.ids).mpr ⟨ha, rfl⟩

/-- An account found by its user and currency is the one found by its id. -/
theorem findById_of_owner (h : WellFormed db)
    (ha : db.findByUserAndCurrency userId currency = some a) : db.findById a.id = some a :=
  h.findById_eq_some (lookup_mem ha).1

theorem findByUserAndCurrency_of_id (h : WellFormed db) (ha : db.findById id = some a) :
    db.findByUserAndCurrency a.userId a.currency = some a :=
  (lookup_eq_some h.owners).mpr ⟨(lookup_mem ha).1, rfl⟩

theorem insertAccount (h : WellFormed db) (hid : db.findById a.id = none)
    (howner : db.findByUserAndCurrency a.userId a.currency = none) :
    WellFormed (db.insertAccount a) where
  ids := keyUnique_append_singleton h.ids hid
  owners := keyUnique_append_singleton h.owners howner
  idempotencyKeys := h.idempotencyKeys
  eventIds := h.eventIds
  ledgerOwners := by
    intro t ht
    obtain ⟨b, hb, howner⟩ := h.ledgerOwners t ht
    exact ⟨b, findById_insertAccount_of_some hb, howner⟩

theorem adjust (h : WellFormed db) : WellFormed (db.adjust change) where
  ids := keyUnique_map h.ids fun _ _ => rfl
  owners := keyUnique_map h.owners fun _ _ => rfl
  idempotencyKeys := h.idempotencyKeys
  eventIds := h.eventIds
  ledgerOwners := by
    intro t ht
    obtain ⟨b, hb, howner⟩ := h.ledgerOwners t ht
    refine ⟨b.add (change b.id), ?_, howner⟩
    rw [findById_adjust, hb, Option.map_some]

theorem insertLedgerTransactions (h : WellFormed db) {ts : List LedgerTransaction}
    (hkeys : (ts.filterMap LedgerTransaction.idempotencyKey).Nodup)
    (hnew : ∀ t ∈ ts, ∀ k, t.idempotencyKey = some k → db.findLedgerByIdempotencyKey k = none)
    (howners : ∀ t ∈ ts, ∃ a, db.findById t.accountId = some a ∧ a.owner = (t.userId, t.currency)) :
    WellFormed (db.insertLedgerTransactions ts) where
  ids := h.ids
  owners := h.owners
  idempotencyKeys := by
    simp only [AccountsDb.insertLedgerTransactions, List.filterMap_append]
    refine List.Nodup.append h.idempotencyKeys hkeys ?_
    intro k hk hk'
    obtain ⟨t, ht, htk⟩ := List.mem_filterMap.mp hk
    obtain ⟨t', ht', htk'⟩ := List.mem_filterMap.mp hk'
    exact lookup_eq_none.mp (hnew t' ht' k htk') t ht htk
  eventIds := h.eventIds
  ledgerOwners := by
    intro t ht
    rcases List.mem_append.mp ht with ht | ht
    · exact h.ledgerOwners t ht
    · exact howners t ht

theorem markEventProcessed (h : WellFormed db) {e : ProcessedEvent}
    (he : db.findProcessedEvent e.eventId = none) : WellFormed (db.markEventProcessed e) where
  ids := h.ids
  owners := h.owners
  idempotencyKeys := h.idempotencyKeys
  eventIds := keyUnique_append_singleton h.eventIds he
  ledgerOwners := h.ledgerOwners

/-- There is one ledger row with the key. -/
theorem filter_idempotencyKey (h : WellFormed db) {t : LedgerTransaction} {k : String}
    (ht : t ∈ db.ledgerTransactions) (hk : t.idempotencyKey = some k) :
    db.ledgerTransactions.filter (fun u => u.idempotencyKey = some k) = [t] := by
  have hkeys := h.idempotencyKeys
  generalize db.ledgerTransactions = ts at ht hkeys
  induction ts with
  | nil => simp at ht
  | cons u ts ih =>
    rw [List.filterMap_cons] at hkeys
    rcases List.mem_cons.mp ht with rfl | ht
    · simp only [hk] at hkeys
      have hnone : ts.filter (fun u => u.idempotencyKey = some k) = [] := by
        rw [List.filter_eq_nil_iff]
        intro u hu huk
        exact (List.nodup_cons.mp hkeys).1
          (List.mem_filterMap.mpr ⟨u, hu, by simpa using huk⟩)
      simp [hk, hnone]
    · cases hu : u.idempotencyKey with
      | none =>
        rw [hu] at hkeys
        simpa [hu] using ih ht hkeys
      | some k' =>
        rw [hu] at hkeys
        obtain ⟨hn, hrest⟩ := List.nodup_cons.mp hkeys
        have hne : k' ≠ k := by
          rintro rfl
          exact hn (List.mem_filterMap.mpr ⟨t, ht, hk⟩)
        simpa [hu, hne] using ih ht hrest

/-- A row that shares its key with all rows like it is the only one. -/
theorem filter_eq_singleton (h : WellFormed db) {P : LedgerTransaction → Prop}
    [DecidablePred P] {t : LedgerTransaction} {k : String} (ht : t ∈ db.ledgerTransactions)
    (hP : P t) (hkey : ∀ u ∈ db.ledgerTransactions, P u → u.idempotencyKey = some k) :
    db.ledgerTransactions.filter (fun u => P u) = [t] := by
  have hsame : db.ledgerTransactions.filter (fun u => P u) =
      (db.ledgerTransactions.filter fun u => u.idempotencyKey = some k).filter fun u => P u := by
    rw [List.filter_filter]
    refine List.filter_congr fun u hu => ?_
    by_cases hPu : P u
    · simp [hPu, hkey u hu hPu]
    · simp [hPu]
  rw [hsame, h.filter_idempotencyKey ht (hkey t ht hP)]
  exact List.filter_eq_self.mpr fun u hu => decide_eq_true (List.mem_singleton.mp hu ▸ hP)

theorem length_filter_le_one (h : WellFormed db) {P : LedgerTransaction → Prop}
    [DecidablePred P] {k : String}
    (hkey : ∀ t ∈ db.ledgerTransactions, P t → t.idempotencyKey = some k) :
    (db.ledgerTransactions.filter fun t => P t).length ≤ 1 := by
  cases hrows : db.ledgerTransactions.filter fun t => P t with
  | nil => exact Nat.zero_le _
  | cons t ts =>
    obtain ⟨hmem, hP⟩ := List.mem_filter.mp (hrows ▸ List.mem_cons_self)
    rw [← hrows, h.filter_eq_singleton hmem (of_decide_eq_true hP) hkey]
    exact le_rfl

end WellFormed

/-- Versions made from the rows of the database change it by what they add. -/
theorem install_eq_adjust (h : WellFormed db) {rows : List Account}
    (hrows : ∀ a ∈ rows, db.findById a.id = some a)
    (hother : ∀ id, (∀ a ∈ rows, a.id ≠ id) → change id = 0) :
    db.install (rows.map fun a => a.add (change a.id)) = db.adjust change := by
  simp only [AccountsDb.install, AccountsDb.adjust, AccountsDb.mk.injEq, and_true]
  apply List.map_congr_left
  intro a ha
  have hversion : lookup Account.id (rows.map fun a => a.add (change a.id)) a.id =
      (lookup Account.id rows a.id).map fun a => a.add (change a.id) :=
    lookup_map fun _ _ => rfl
  rw [hversion]
  cases hl : lookup Account.id rows a.id with
  | none => simp [hother a.id (lookup_eq_none.mp hl)]
  | some b =>
    obtain ⟨hb, hid⟩ := lookup_mem hl
    have hba : b = a := Option.some.inj
      ((hrows b hb).symm.trans (hid ▸ h.findById_eq_some ha))
    simp [hba]

/-- What a ledger row says about its account. -/
def posting (t : LedgerTransaction) : Posting Uuid Balances :=
  ⟨t.accountId, t.change, t.balancesAfter⟩

/-- The balances of the accounts and the changes the ledger records. -/
def books (db : AccountsDb) : Books Uuid Balances where
  balance id := ((db.findById id).map Account.balances).getD 0
  journal := db.ledgerTransactions.map posting

theorem books_balance (h : db.findById id = some a) : (books db).balance id = a.balances := by
  simp [books, h]

theorem books_empty : books .empty = .empty := rfl

/-- An account with zero balances changes nothing in the books. -/
theorem books_insertAccount (hid : db.findById a.id = none) (hzero : a.balances = 0) :
    books (db.insertAccount a) = books db := by
  simp only [books, Books.mk.injEq, AccountsDb.insertAccount, and_true]
  funext i
  rw [← AccountsDb.insertAccount, findById_insertAccount]
  by_cases hi : a.id = i
  · subst hi
    simp [hid, hzero]
  · simp [hi]

/-- A transaction that changes distinct accounts and records each change with the balance
it leaves posts its changes to the books. -/
theorem books_postAll {legs : List (Uuid × Balances)} {ts : List LedgerTransaction}
    (hlegs : (legs.map Prod.fst).Nodup) (hfound : ∀ leg ∈ legs, (db.findById leg.1).isSome)
    (hts : ts.map posting =
      legs.map fun leg => ⟨leg.1, leg.2, (books db).balance leg.1 + leg.2⟩) :
    books ((db.adjust (totalChange legs)).insertLedgerTransactions ts) =
      (books db).postAll legs := by
  have hbalance : (books ((db.adjust (totalChange legs)).insertLedgerTransactions ts)).balance =
      ((books db).postAll legs).balance := by
    funext id
    rw [Books.balance_postAll]
    simp only [books, findById_insertLedgerTransactions, findById_adjust]
    cases hid : db.findById id with
    | none =>
      have hnone : id ∉ legs.map Prod.fst := by
        intro hmem
        obtain ⟨leg, hleg, rfl⟩ := List.mem_map.mp hmem
        simpa [hid] using hfound leg hleg
      simp [totalChange_of_notMem hnone]
    | some a =>
      obtain rfl := findById_id hid
      simp
  have hjournal : (books ((db.adjust (totalChange legs)).insertLedgerTransactions ts)).journal =
      ((books db).postAll legs).journal := by
    rw [Books.journal_postAll _ hlegs, ← hts]
    simp [books, AccountsDb.insertLedgerTransactions, AccountsDb.adjust]
  cases h : (books db).postAll legs
  simp only [h] at hbalance hjournal
  simp only [← hbalance, ← hjournal]

end EtherTrade.AccountsDbInvariants
