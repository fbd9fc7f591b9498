import EtherTrade.AccountsDbInvariants
import EtherTrade.BalanceMutations

/-!
# What a balance mutation does

A mutation either leaves the database as it is or commits on one account, and then its
idempotency key was unused, its guard held, and it posts one change to the books.
-/

namespace EtherTrade.BalanceMutationCorrectness

open DecimalNumbers KeyedRows AccountsSchema PostedJournals AccountsDbInvariants BalanceMutations

/-- The statements up to the guarded update have succeeded in `db`: the account that is
updated, and the database with that account in it. -/
inductive Prepared (m : BalanceMutation) (params : BalanceParams) (db : AccountsDb) :
    Account → AccountsDb → Prop
  | found {account : Account}
      (hfound : db.findByUserAndCurrency params.userId params.currency = some account)
      (hguard : m.refusal account params.amount = none) : Prepared m params db account db
  | opened {newId : Uuid} (hopens : m.opensAccount = true)
      (hmissing : db.findByUserAndCurrency params.userId params.currency = none)
      (hid : db.findById newId = none) :
      Prepared m params db (.zero newId params.userId params.currency)
        (db.insertAccount (.zero newId params.userId params.currency))

variable {m : BalanceMutation} {params : BalanceParams} {db db' prepared : AccountsDb}
  {account : Account} {newId : Uuid} {result : Option BalanceMutationResult}

theorem checkReplay_eq_unused (expectedType : LedgerTransactionType) :
    checkReplay expectedType params db = .unused ↔
      db.findLedgerByIdempotencyKey params.idempotencyKey = none := by
  unfold checkReplay
  cases db.findLedgerByIdempotencyKey params.idempotencyKey with
  | none => simp
  | some existing =>
    simp only [reduceCtorEq, iff_false]
    split <;> simp

theorem resolveIdempotencyReplay_eq_none (expectedType : LedgerTransactionType) :
    resolveIdempotencyReplay expectedType params db = none ↔
      db.findLedgerByIdempotencyKey params.idempotencyKey = none := by
  rw [← checkReplay_eq_unused expectedType, resolveIdempotencyReplay]
  cases checkReplay expectedType params db <;> simp

theorem readReplayedAccount_ne_ok {id : Uuid} : readReplayedAccount id db ≠ .ok account := by
  unfold readReplayedAccount
  split <;> simp

/-- A replay never reports a fresh success. -/
theorem resolveIdempotencyReplay_ne_ok {expectedType : LedgerTransactionType} :
    resolveIdempotencyReplay expectedType params db ≠ some (.ok account) := by
  unfold resolveIdempotencyReplay
  cases checkReplay expectedType params db with
  | unused => simp
  | mismatch => simp
  | replay id => simp [readReplayedAccount_ne_ok]

/-- A refused update reports the balance that is too small. -/
theorem refusal_eq_some {op : BalanceOperation} {a : Account} {amount : Amount}
    {refused : BalanceMutationResult} (h : op.mutation.refusal a amount = some refused) :
    refused = .insufficientAvailable a.availableBalance ∨
      refused = .insufficientLocked a.lockedBalance := by
  cases op with
  | deposit => cases h
  | creditDeposit => cases h
  | lock =>
    simp only [BalanceOperation.mutation, lockMutation] at h
    split at h
    · cases h
    · exact Or.inl (Option.some.inj h).symm
  | unlock =>
    simp only [BalanceOperation.mutation, unlockMutation] at h
    split at h
    · cases h
    · exact Or.inr (Option.some.inj h).symm
  | debitWithdrawal =>
    simp only [BalanceOperation.mutation, debitWithdrawalMutation] at h
    split at h
    · cases h
    · exact Or.inr (Option.some.inj h).symm

theorem refusal_ne_ok {op : BalanceOperation} {a b : Account} {amount : Amount} :
    op.mutation.refusal a amount ≠ some (.ok b) := by
  intro h
  rcases refusal_eq_some h with h | h <;> cases h

/-- A mutation changes the database only when it commits. -/
theorem mutateBalance_cases {op : BalanceOperation}
    (h : mutateBalance op.mutation newId params db = (db', result)) :
    (db' = db ∧ ∀ a, result ≠ some (.ok a)) ∨
    ∃ account prepared, db.findLedgerByIdempotencyKey params.idempotencyKey = none ∧
      Prepared op.mutation params db account prepared ∧
      db' = op.mutation.commit params account prepared ∧
      result = some (.ok (op.mutation.updatedAccount params account)) := by
  unfold mutateBalance at h
  cases hreplay : resolveIdempotencyReplay op.mutation.expectedType params db with
  | some replay =>
    simp only [hreplay, Prod.mk.injEq] at h
    obtain ⟨rfl, rfl⟩ := h
    exact Or.inl ⟨rfl, fun a ha => resolveIdempotencyReplay_ne_ok (hreplay.trans ha)⟩
  | none =>
    have hkey := (resolveIdempotencyReplay_eq_none _).mp hreplay
    simp only [hreplay] at h
    cases hfound : db.findByUserAndCurrency params.userId params.currency with
    | some account =>
      simp only [hfound] at h
      cases hguard : op.mutation.refusal account params.amount with
      | some refused =>
        simp only [hguard, Prod.mk.injEq] at h
        obtain ⟨rfl, rfl⟩ := h
        exact Or.inl ⟨rfl, fun a ha => refusal_ne_ok (hguard.trans ha)⟩
      | none =>
        simp only [hguard, Prod.mk.injEq] at h
        obtain ⟨rfl, rfl⟩ := h
        exact Or.inr ⟨account, db, hkey, .found hfound hguard, rfl, rfl⟩
    | none =>
      simp only [hfound] at h
      by_cases hopens : op.mutation.opensAccount = true
      · by_cases hid : (db.findById newId).isSome = true
        · simp only [hopens, hid, if_true, Prod.mk.injEq] at h
          obtain ⟨rfl, rfl⟩ := h
          exact Or.inl ⟨rfl, by simp⟩
        · simp only [hopens, hid, if_true] at h
          obtain ⟨rfl, rfl⟩ := h
          exact Or.inr ⟨_, _, hkey, .opened hopens hfound (by simpa using hid), rfl, rfl⟩
      · simp only [hopens] at h
        obtain ⟨rfl, rfl⟩ := h
        exact Or.inl ⟨rfl, by simp⟩

namespace Prepared

theorem wellFormed (h : Prepared m params db account prepared) (hdb : WellFormed db) :
    WellFormed prepared := by
  cases h with
  | found => exact hdb
  | opened _ hmissing hid => exact hdb.insertAccount hid hmissing

theorem findById (h : Prepared m params db account prepared) (hdb : WellFormed db) :
    prepared.findById account.id = some account := by
  cases h with
  | found hfound => exact hdb.findById_of_owner hfound
  | opened _ _ hid => simp [findById_insertAccount, hid]

theorem owner (h : Prepared m params db account prepared) :
    account.owner = (params.userId, params.currency) := by
  cases h with
  | found hfound => exact findByUserAndCurrency_owner hfound
  | opened => rfl

theorem ledgerTransactions_eq (h : Prepared m params db account prepared) :
    prepared.ledgerTransactions = db.ledgerTransactions := by
  cases h <;> rfl

theorem processedEvents_eq (h : Prepared m params db account prepared) :
    prepared.processedEvents = db.processedEvents := by
  cases h <;> rfl

theorem books_eq (h : Prepared m params db account prepared) : books prepared = books db := by
  cases h with
  | found => rfl
  | opened _ _ hid => exact books_insertAccount hid rfl

theorem findLedger_eq (h : Prepared m params db account prepared) (k : String) :
    prepared.findLedgerByIdempotencyKey k = db.findLedgerByIdempotencyKey k := by
  cases h <;> rfl

end Prepared

/-- The one change a mutation makes. -/
def leg (m : BalanceMutation) (params : BalanceParams) (account : Account) : Uuid × Balances :=
  (account.id, m.change params.amount)

theorem commit_eq (hdb : WellFormed db) (hfound : db.findById account.id = some account) :
    m.commit params account db =
      (db.adjust (totalChange [leg m params account])).insertLedgerTransactions
        [m.ledgerTransaction params (m.updatedAccount params account)] := by
  have hchange : totalChange [leg m params account] account.id = m.change params.amount := by
    simp [leg, totalChange_cons]
  have hrows : [m.updatedAccount params account] =
      [account].map fun a => a.add (totalChange [leg m params account] a.id) := by
    simp [BalanceMutation.updatedAccount, hchange]
  simp only [BalanceMutation.commit]
  rw [hrows, install_eq_adjust hdb]
  · simpa using hfound
  · intro id hid
    apply totalChange_of_notMem
    simpa [leg] using Ne.symm (hid account List.mem_cons_self)

theorem wellFormed_commit (hkey : db.findLedgerByIdempotencyKey params.idempotencyKey = none)
    (h : Prepared m params db account prepared) (hdb : WellFormed db) :
    WellFormed (m.commit params account prepared) := by
  have hfound := h.findById hdb
  rw [commit_eq (h.wellFormed hdb) hfound]
  refine (h.wellFormed hdb).adjust.insertLedgerTransactions ?_ ?_ ?_
  · simp [BalanceMutation.ledgerTransaction]
  · intro t ht k hk
    obtain rfl := List.mem_singleton.mp ht
    obtain rfl := Option.some.inj hk
    exact (h.findLedger_eq _).trans hkey
  · intro t ht
    obtain rfl := List.mem_singleton.mp ht
    refine ⟨account.add (totalChange [leg m params account] account.id), ?_, ?_⟩
    · rw [findById_adjust]
      simp [BalanceMutation.ledgerTransaction, BalanceMutation.updatedAccount, hfound]
    · simpa [BalanceMutation.ledgerTransaction] using h.owner

theorem findLedger_commit (key : String) :
    (m.commit params account db).findLedgerByIdempotencyKey key =
      (db.findLedgerByIdempotencyKey key).or
        (if params.idempotencyKey = key then
          some (m.ledgerTransaction params (m.updatedAccount params account)) else none) := by
  have hkey : (m.ledgerTransaction params (m.updatedAccount params account)).idempotencyKey =
      some params.idempotencyKey := rfl
  refine lookup_append_singleton.trans ?_
  simp only [hkey, Option.some.injEq]
  rfl

/-- A committed mutation posts its change to the books of the database before it. -/
theorem books_commit (h : Prepared m params db account prepared) (hdb : WellFormed db) :
    books (m.commit params account prepared) =
      (books db).post account.id (m.change params.amount) := by
  have hfound := h.findById hdb
  rw [commit_eq (h.wellFormed hdb) hfound, ← h.books_eq]
  refine (books_postAll ?_ ?_ ?_).trans rfl
  · simp
  · simp [leg, hfound]
  · simp [leg, posting, LedgerTransaction.change, LedgerTransaction.balancesAfter,
      BalanceMutation.ledgerTransaction, BalanceMutation.updatedAccount, books_balance hfound]
    rfl

/-- What the guard of an operation lets through leaves no balance below zero. -/
theorem updatedAccount_nonneg {op : BalanceOperation}
    (h : Prepared op.mutation params db account prepared)
    (havailable : 0 ≤ account.availableBalance) (hlocked : 0 ≤ account.lockedBalance) :
    0 ≤ (op.mutation.updatedAccount params account).availableBalance ∧
      0 ≤ (op.mutation.updatedAccount params account).lockedBalance := by
  have hpos := params.amount.positive
  have hopens : ∀ {newId : Uuid}, account = .zero newId params.userId params.currency →
      op.mutation.opensAccount = true →
      0 ≤ (op.mutation.updatedAccount params account).availableBalance ∧
        0 ≤ (op.mutation.updatedAccount params account).lockedBalance := by
    rintro newId rfl hopens
    cases op <;>
      simp_all [BalanceOperation.mutation, depositMutation, creditDepositMutation, lockMutation,
        unlockMutation, debitWithdrawalMutation, BalanceMutation.updatedAccount, Account.add,
        Account.zero, le_of_lt]
  cases h with
  | opened ho => exact hopens rfl ho
  | found _ hguard =>
    cases op <;>
      simp only [BalanceOperation.mutation, depositMutation, creditDepositMutation, lockMutation,
        unlockMutation, debitWithdrawalMutation, BalanceMutation.updatedAccount, Account.add,
        ite_eq_left_iff, reduceCtorEq, imp_false, not_not, ge_iff_le] at hguard ⊢ <;>
      omega

end EtherTrade.BalanceMutationCorrectness
