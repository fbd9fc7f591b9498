import EtherTrade.DepositTransactionSteps
import EtherTrade.IdempotencyKeyIsolation

/-!
# The credit of a deposit

The accounts ledger against the table of deposits, for any number of scanners and calls of
`processDepositEvent`. Every request for a credit repeats what a row of its transaction
says, rows keep what they say, and the ledger takes one entry for a key.
-/

namespace EtherTrade.DepositCreditLaws

open DecimalNumbers KeyedRows AccountsSchema AccountsDbInvariants BalanceMutations
open BalanceMutationCorrectness SequentialRequests IdempotencyKeyIsolation BalancesService
open DepositsSchema DepositTransactions DepositTransactionSteps InterleavedProcesses

variable {settings : Settings} {chain : Chain} {s s' : DepositsStore} {l l' : Process}
  {action : Action} {event : DepositEvent} {caller : Option Polling} {txHash : String}
  {newId : Uuid} {deposit row : WalletDeposit} {t : LedgerTransaction} {params : BalanceParams}
  {db db' : AccountsDb} {c d : DepositsConfig} {e : Event Action} {es : List (Event Action)}

/-- The ledger entry of an on-chain deposit under the key of the transaction. -/
def CreditsDeposit (txHash : String) (t : LedgerTransaction) : Prop :=
  t.type = .onChainDeposit ∧ t.idempotencyKey = some (depositKey txHash)

instance : Decidable (CreditsDeposit txHash t) := inferInstanceAs (Decidable (_ ∧ _))

/-- The ledger entry says what the row says. -/
structure Records (deposit : DepositTerms) (t : LedgerTransaction) : Prop where
  credits : CreditsDeposit deposit.txHash t
  userId : t.userId = deposit.userId
  currency : t.currency = deposit.currency
  amount : t.amount = deposit.amount

/-! ### The request -/

theorem not_whiteSpace_of_hexDigit {char : Char} (h : isHexDigit char = true) :
    isWhiteSpace char = false := by
  have hrange : 48 ≤ char.toNat ∧ char.toNat ≤ 102 := by
    simp only [isHexDigit, Char.isDigit, Bool.or_eq_true, Bool.and_eq_true, decide_eq_true_eq,
      Char.le_def, UInt32.le_iff_toNat_le, ge_iff_le] at h
    have hval : char.val.toNat = char.toNat := rfl
    simp at h
    omega
  simp only [isWhiteSpace, Bool.or_eq_false_iff, decide_eq_false_iff_not, Bool.and_eq_false_iff]
  constructor
  · simp
    omega
  · left
    omega

theorem trim_depositKey (h : IsHex 32 txHash) : trim (depositKey txHash) = depositKey txHash := by
  obtain ⟨digits, htext, -, hdigits⟩ := h
  refine trim_eq_self fun char hchar => ?_
  rw [depositKey, String.toList_append, htext] at hchar
  rcases List.mem_append.mp hchar with hname | hhash
  · have hplain : ("deposit:".toList.all fun char => isWhiteSpace char = false) = true := by decide
    exact of_decide_eq_true (List.all_eq_true.mp hplain char hname)
  · rcases List.mem_cons.mp hhash with rfl | hhash
    · rfl
    · rcases List.mem_cons.mp hhash with rfl | hdigit
      · rfl
      · exact not_whiteSpace_of_hexDigit (List.all_eq_true.mp hdigits char hdigit)

theorem depositKey_injective {other : String} (h : depositKey txHash = depositKey other) :
    txHash = other := by
  have hlist := congrArg String.toList h
  rw [depositKey, depositKey, String.toList_append, String.toList_append] at hlist
  exact String.toList_injective (List.append_cancel_left hlist)

/-- A deposit that can be credited: its key has nothing to trim, and its currency is one of
the two. -/
structure Accepted (deposit : DepositTerms) : Prop where
  hash : IsHex 32 deposit.txHash
  currency : deposit.currency = .eth ∨ deposit.currency = .usdt

/-- The service is called with what the row says. -/
theorem validateCreditRequest_eq_ok (h : Accepted row.toDepositTerms)
    (hparams : validateCreditRequest settings.isValidUuid (creditRequest row row.txHash) =
      .ok params) :
    params.userId = row.userId ∧ params.currency = row.currency ∧
      params.amount.units = row.amount ∧ params.idempotencyKey = depositKey row.txHash := by
  simp only [validateCreditRequest, bind_eq_ok] at hparams
  obtain ⟨userId, huser, currency, hcurrency, amount, hamount, key, hkey, hparams⟩ := hparams
  obtain rfl := Except.ok.inj hparams
  refine ⟨?_, ?_, ?_, ?_⟩
  · simp only [validateUserId] at huser
    split at huser
    · cases huser
    · exact (Except.ok.inj huser).symm
  · simp only [creditRequest] at hcurrency
    rcases h.currency with heth | husdt
    · rw [heth] at hcurrency ⊢
      exact (Except.ok.inj hcurrency).symm
    · rw [husdt] at hcurrency ⊢
      exact (Except.ok.inj hcurrency).symm
  · have hunits := validateAmount_eq_ok hamount
    exact (Option.some.inj hunits).symm
  · simp only [creditRequest, requireIdempotencyKey, trim_depositKey h.hash] at hkey
    split at hkey
    · cases hkey
    · exact (Except.ok.inj hkey).symm

/-! ### The accounts service -/

/-- What a credit call does to the ledger: nothing, or one new entry; and after a success
the ledger has the entry. -/
structure CreditSpec (row : WalletDeposit) (db db' : AccountsDb)
    (result : Except BalanceFailure Account) : Prop where
  wellFormed : WellFormed db'
  ledger : db'.ledgerTransactions = db.ledgerTransactions ∨ ∃ t, Records row.toDepositTerms t ∧
    db'.ledgerTransactions = db.ledgerTransactions ++ [t]
  found : ∀ account, result = .ok account → ∃ t ∈ db'.ledgerTransactions,
    CreditsDeposit row.txHash t ∧ t.currency = row.currency ∧ t.amount = row.amount

theorem mapMutationResult_eq_ok {result : BalanceMutationResult} {account : Account}
    (h : (mapMutationResult params result).mapError BalanceFailure.rpc = .ok account) :
    result = .ok account ∨ result = .idempotentReplay account := by
  cases result with
  | ok a => exact Or.inl (congrArg BalanceMutationResult.ok (Except.ok.inj h))
  | idempotentReplay a =>
    exact Or.inr (congrArg BalanceMutationResult.idempotentReplay (Except.ok.inj h))
  | _ => cases h

/-- What the service answers is what the mutation did. -/
theorem creditDepositFunds_eq {request : CreditDepositFundsRequest}
    {result : Except BalanceFailure Account}
    (hparams : validateCreditRequest settings.isValidUuid request = .ok params)
    (hcredit : creditDepositFunds settings.isValidUuid newId request db = (db', result)) :
    ∃ answer, mutateBalance BalanceOperation.creditDeposit.mutation newId params db =
      (db', answer) ∧ ∀ account, result = .ok account →
        answer = some (.ok account) ∨ answer = some (.idempotentReplay account) := by
  rw [creditDepositFunds, hparams] at hcredit
  dsimp only at hcredit
  split at hcredit
  · next answer hanswer =>
    obtain ⟨rfl, rfl⟩ := Prod.mk.inj hcredit
    refine ⟨_, hanswer, fun account hok => ?_⟩
    rcases mapMutationResult_eq_ok hok with rfl | rfl
    · exact Or.inl rfl
    · exact Or.inr rfl
  · next hanswer =>
    obtain ⟨rfl, rfl⟩ := Prod.mk.inj hcredit
    exact ⟨_, hanswer, fun _ hok => by cases hok⟩

theorem creditDepositFunds_spec (hdb : WellFormed db) (h : Accepted row.toDepositTerms)
    {result : Except BalanceFailure Account} (hcredit : creditDepositFunds settings.isValidUuid newId
      (creditRequest row row.txHash) db = (db', result)) : CreditSpec row db db' result := by
  cases hparams : validateCreditRequest settings.isValidUuid (creditRequest row row.txHash) with
  | error exception =>
    rw [creditDepositFunds, hparams] at hcredit
    obtain ⟨rfl, rfl⟩ := Prod.mk.inj hcredit
    exact ⟨hdb, Or.inl rfl, fun _ hok => by cases hok⟩
  | ok params =>
    obtain ⟨huser, hcurrency, hamount, hkey⟩ := validateCreditRequest_eq_ok h hparams
    obtain ⟨answer, hmutate, hanswer⟩ := creditDepositFunds_eq hparams hcredit
    rcases mutateBalance_cases hmutate with
      ⟨rfl, hnew⟩ | ⟨account, prepared, hunused, hprepared, rfl, -⟩
    · -- the ledger is as before: a success is a replay
      refine ⟨hdb, Or.inl rfl, fun account hok => ?_⟩
      have hreplay : answer = some (.idempotentReplay account) :=
        (hanswer account hok).resolve_left (hnew account)
      have hstatus : (mutateBalance BalanceOperation.creditDeposit.mutation newId params db').2.map
          status = some .idempotentReplay := by
        rw [hmutate, hreplay]
        rfl
      obtain ⟨-, t, ht, hdata⟩ := mutateBalance_replay hstatus hdb
      obtain ⟨hmem, hkey'⟩ := lookup_mem ht
      simp only [replayData, Prod.mk.injEq] at hdata
      obtain ⟨hamount', hcurrency', htype⟩ := hdata
      exact ⟨t, hmem, ⟨htype, hkey'.trans (congrArg some hkey)⟩, hcurrency'.trans hcurrency,
        hamount'.trans hamount⟩
    · have hentry : Records row.toDepositTerms
          (BalanceOperation.creditDeposit.mutation.ledgerTransaction params
            (BalanceOperation.creditDeposit.mutation.updatedAccount params account)) :=
        ⟨⟨rfl, congrArg some hkey⟩, huser, hcurrency, hamount⟩
      have hledger : (BalanceOperation.creditDeposit.mutation.commit params account
          prepared).ledgerTransactions = db.ledgerTransactions ++ [_] :=
        congrArg (· ++ _) hprepared.ledgerTransactions_eq
      refine ⟨wellFormed_commit hunused hprepared hdb, Or.inr ⟨_, hentry, hledger⟩, fun _ _ => ?_⟩
      exact ⟨_, hledger ▸ List.mem_append_right _ List.mem_cons_self, hentry.credits,
        hentry.currency, hentry.amount⟩

/-! ### The invariant -/

/-- The table has the row, whatever its status is now. -/
def Stored (s : DepositsStore) (deposit : WalletDeposit) : Prop :=
  ∃ row ∈ s.deposits, row.id = deposit.id ∧ row.toDepositTerms = deposit.toDepositTerms

/-- The ledger has an entry that says what the row says. -/
def Entered (s : DepositsStore) (deposit : DepositTerms) : Prop :=
  ∃ t ∈ s.accounts.ledgerTransactions, Records deposit t

/-- The two databases agree: entries come from rows, rows marked as credited have entries, and
so do the calls in flight come from rows. -/
structure Books (s : DepositsStore) : Prop where
  wellFormed : WellFormed s.accounts
  ids : KeyUnique WalletDeposit.id s.deposits
  hashes : KeyUnique (fun row : WalletDeposit => row.txHash) s.deposits
  accepted : ∀ row ∈ s.deposits, row.status = .confirmed → Accepted row.toDepositTerms
  ledger : ∀ t ∈ s.accounts.ledgerTransactions, ∀ key, t.idempotencyKey = some key →
    t.type = .onChainDeposit → ∃ row ∈ s.deposits, Records row.toDepositTerms t
  credited : ∀ row ∈ s.deposits, row.status = .credited → Entered s row.toDepositTerms
  inFlight : ∀ request ∈ s.inFlight, ∃ deposit, Stored s deposit ∧
    Accepted deposit.toDepositTerms ∧ request = creditRequest deposit deposit.txHash

/-- The logs that a poll has left are the vault's. -/
def FromChain (chain : Chain) : Polling → Prop
  | .nativeLogs _ rest => ∀ log ∈ rest, log ∈ chain.logs
  | .tokenLogs _ rest => ∀ log ∈ rest, log ∈ chain.logs
  | _ => True

/-- What `processDepositEvent` relies on. -/
def Relies (settings : Settings) (s : DepositsStore) (event : DepositEvent) : Processing → Prop
  | .finding => True
  | .inserting deposit => newDeposit settings.usdtTokenAddress event = .ok deposit
  | .crediting deposit => Stored s deposit ∧ Accepted deposit.toDepositTerms ∧
      deposit.txHash = event.txHash
  | .marking deposit => Stored s deposit ∧ Entered s deposit.toDepositTerms ∧
      deposit.txHash = event.txHash

def Backed (settings : Settings) (chain : Chain) (s : DepositsStore) : Process → Prop
  | .idle => True
  | .polling progress => FromChain chain progress
  | .processing event progress caller => event ∈ chain.logs ∧ Relies settings s event progress ∧
      ∀ poll, caller = some poll → FromChain chain poll

/-- Rows and entries stay. -/
structure Persists (s s' : DepositsStore) : Prop where
  stored : ∀ deposit, Stored s deposit → Stored s' deposit
  ledger : ∀ t ∈ s.accounts.ledgerTransactions, t ∈ s'.accounts.ledgerTransactions

theorem Persists.refl (s : DepositsStore) : Persists s s := ⟨fun _ h => h, fun _ h => h⟩

theorem Entered.mono {deposit : DepositTerms} (h : Entered s deposit) (hs : Persists s s') :
    Entered s' deposit := by
  obtain ⟨t, ht, hrecords⟩ := h
  exact ⟨t, hs.ledger t ht, hrecords⟩

theorem Backed.mono (h : Backed settings chain s l) (hs : Persists s s') :
    Backed settings chain s' l := by
  cases l with
  | idle => trivial
  | polling => exact h
  | processing event progress caller =>
    obtain ⟨hevent, hrelies, hcaller⟩ := h
    refine ⟨hevent, ?_, hcaller⟩
    cases progress with
    | finding => trivial
    | inserting => exact hrelies
    | crediting deposit => exact ⟨hs.stored _ hrelies.1, hrelies.2⟩
    | marking deposit => exact ⟨hs.stored _ hrelies.1, hrelies.2.1.mono hs, hrelies.2.2⟩

theorem stored_of_mem (h : row ∈ s.deposits) : Stored s row := ⟨row, h, rfl, rfl⟩

/-- What a new row says about its event. -/
theorem newDeposit_spec {usdtTokenAddress : String} {deposit : NewWalletDeposit}
    (h : newDeposit usdtTokenAddress event = .ok deposit) : deposit.txHash = event.txHash ∧
      deposit.status ≠ .credited ∧
        (deposit.status = .confirmed → deposit.currency = .eth ∨ deposit.currency = .usdt) := by
  simp only [newDeposit, bind_eq_ok] at h
  obtain ⟨userId, -, h⟩ := h
  split at h
  · obtain rfl := Except.ok.inj h
    exact ⟨rfl, by simp, by simp⟩
  · next tokenConfig htoken =>
    obtain rfl := Except.ok.inj h
    refine ⟨rfl, ?_, fun _ => ?_⟩
    · dsimp only
      split <;> simp
    · unfold resolveTokenConfig at htoken
      split at htoken
      · cases htoken
        exact Or.inl rfl
      · split at htoken
        · cases htoken
          exact Or.inl rfl
        · split at htoken <;> cases htoken
          exact Or.inr rfl

theorem createDeposit_eq_some {deposit : NewWalletDeposit}
    (h : createDeposit s deposit newId = some s') :
    findDepositByTxHash s deposit.txHash = none ∧ lookup WalletDeposit.id s.deposits newId = none ∧
      s'.accounts = s.accounts ∧ s'.inFlight = s.inFlight ∧
        s'.deposits = s.deposits ++ [{ deposit with id := newId }] := by
  unfold createDeposit at h
  dsimp only at h
  split at h
  · cases h
  · next hnew =>
    cases h
    simp only [Bool.or_eq_true, not_or, Option.not_isSome_iff_eq_none] at hnew
    exact ⟨hnew.1.1, hnew.1.2, rfl, rfl, rfl⟩

/-! ### Steps -/

/-- What a step keeps. -/
structure BooksSpec (settings : Settings) (chain : Chain) (s s' : DepositsStore) (l' : Process) :
    Prop where
  persists : Persists s s'
  books : Books s'
  backed : Backed settings chain s' l'

theorem persists_of_eq (haccounts : s'.accounts = s.accounts) (hdeposits : s'.deposits = s.deposits) :
    Persists s s' := by
  constructor
  · rintro deposit ⟨row, hrow, hsame⟩
    exact ⟨row, hdeposits ▸ hrow, hsame⟩
  · intro t ht
    rwa [haccounts]

theorem books_of_eq (h : Books s) (haccounts : s'.accounts = s.accounts)
    (hdeposits : s'.deposits = s.deposits) (hinFlight : ∀ request ∈ s'.inFlight,
      request ∈ s.inFlight) : Books s' where
  wellFormed := haccounts ▸ h.wellFormed
  ids := hdeposits ▸ h.ids
  hashes := hdeposits ▸ h.hashes
  accepted row hrow := h.accepted row (hdeposits ▸ hrow)
  ledger t ht := by
    rw [hdeposits]
    exact h.ledger t (haccounts ▸ ht)
  credited row hrow hstatus :=
    (h.credited row (hdeposits ▸ hrow) hstatus).mono (persists_of_eq haccounts hdeposits)
  inFlight request hrequest := by
    obtain ⟨deposit, hstored, haccepted⟩ := h.inFlight request (hinFlight request hrequest)
    exact ⟨deposit, (persists_of_eq haccounts hdeposits).stored _ hstored, haccepted⟩

theorem booksSpec_same (h : Books s) (haccounts : s'.accounts = s.accounts)
    (hdeposits : s'.deposits = s.deposits) (hinFlight : s'.inFlight = s.inFlight)
    (hbacked : Backed settings chain s l') : BooksSpec settings chain s s' l' :=
  have hpersists := persists_of_eq haccounts hdeposits
  ⟨hpersists, books_of_eq h haccounts hdeposits fun _ hr => hinFlight ▸ hr, hbacked.mono hpersists⟩

/-- A row that the indexes let through. -/
theorem created_spec {deposit : NewWalletDeposit} (h : Books s) (hevent : event ∈ chain.logs)
    (hnew : newDeposit settings.usdtTokenAddress event = .ok deposit)
    (hcreate : createDeposit s deposit newId = some s') : Persists s s' ∧ Books s' ∧
      Stored s' { deposit with id := newId } ∧
        (deposit.status = .confirmed → Accepted deposit.toDepositTerms) := by
  obtain ⟨hhash, hid, haccounts, hinFlight, hdeposits⟩ := createDeposit_eq_some hcreate
  obtain ⟨htxHash, hcredited, hcurrency⟩ := newDeposit_spec hnew
  have haccepted (hstatus : deposit.status = .confirmed) : Accepted deposit.toDepositTerms :=
    ⟨htxHash ▸ chain.hashes event hevent, hcurrency hstatus⟩
  have hpersists : Persists s s' := by
    constructor
    · rintro other ⟨row, hrow, hsame⟩
      exact ⟨row, hdeposits ▸ List.mem_append_left _ hrow, hsame⟩
    · intro t ht
      rwa [haccounts]
  refine ⟨hpersists, ?_, ⟨_, hdeposits ▸ List.mem_append_right _ List.mem_cons_self, rfl, rfl⟩,
    haccepted⟩
  constructor
  · exact haccounts ▸ h.wellFormed
  · rw [hdeposits]
    exact keyUnique_append_singleton h.ids hid
  · rw [hdeposits]
    exact keyUnique_append_singleton h.hashes hhash
  · intro row hrow hstatus
    rw [hdeposits] at hrow
    rcases List.mem_append.mp hrow with hold | hnew
    · exact h.accepted row hold hstatus
    · obtain rfl := List.mem_singleton.mp hnew
      exact haccepted hstatus
  · intro t ht key hkey htype
    obtain ⟨row, hrow, hrecords⟩ := h.ledger t (haccounts ▸ ht) key hkey htype
    exact ⟨row, hdeposits ▸ List.mem_append_left _ hrow, hrecords⟩
  · intro row hrow hstatus
    rw [hdeposits] at hrow
    rcases List.mem_append.mp hrow with hold | hnew
    · exact (h.credited row hold hstatus).mono hpersists
    · obtain rfl := List.mem_singleton.mp hnew
      exact absurd hstatus hcredited
  · intro request hrequest
    obtain ⟨other, hstored, haccepted⟩ := h.inFlight request (hinFlight ▸ hrequest)
    exact ⟨other, hpersists.stored _ hstored, haccepted⟩

theorem status_update_terms {status : DepositStatus} {id : Uuid} (row : WalletDeposit) :
    (if row.id = id then ({ row with status } : WalletDeposit) else row).id = row.id ∧
      (if row.id = id then ({ row with status } : WalletDeposit) else row).toDepositTerms =
        row.toDepositTerms := by
  split <;> exact ⟨rfl, rfl⟩

/-- A row is marked once its entry is there. -/
theorem marked_spec (h : Books s) (hstored : Stored s deposit)
    (hentered : Entered s deposit.toDepositTerms) :
    Persists s (updateDepositStatus s deposit.id .credited) ∧
      Books (updateDepositStatus s deposit.id .credited) := by
  have hpersists : Persists s (updateDepositStatus s deposit.id .credited) := by
    constructor
    · rintro other ⟨row, hrow, hid, hterms⟩
      have hsame := @status_update_terms .credited deposit.id row
      exact ⟨_, List.mem_map_of_mem hrow, hsame.1.trans hid, hsame.2.trans hterms⟩
    · exact fun t ht => ht
  refine ⟨hpersists, h.wellFormed, ?_, ?_, ?_, ?_, ?_, ?_⟩
  · exact keyUnique_map h.ids fun row _ => (status_update_terms row).1
  · exact keyUnique_map h.hashes fun row _ =>
      congrArg DepositTerms.txHash (status_update_terms row).2
  · intro row hrow hstatus
    obtain ⟨before, hbefore, rfl⟩ := List.mem_map.mp hrow
    split at hstatus
    · cases hstatus
    · next hne =>
      rw [if_neg hne]
      exact h.accepted before hbefore hstatus
  · intro t ht key hkey htype
    obtain ⟨row, hrow, hrecords⟩ := h.ledger t ht key hkey htype
    refine ⟨_, List.mem_map_of_mem hrow, ?_⟩
    rwa [(status_update_terms row).2]
  · intro row hrow hstatus
    obtain ⟨before, hbefore, rfl⟩ := List.mem_map.mp hrow
    by_cases hid : before.id = deposit.id
    · obtain ⟨stored, hmem, hstoredId, hterms⟩ := hstored
      obtain rfl := h.ids.eq hbefore hmem (hid.trans hstoredId.symm)
      rw [(status_update_terms before).2, hterms]
      exact hentered
    · rw [if_neg hid] at hstatus ⊢
      exact h.credited before hbefore hstatus
  · intro request hrequest
    obtain ⟨other, hother, haccepted⟩ := h.inFlight request hrequest
    exact ⟨other, hpersists.stored _ hother, haccepted⟩

/-- The ledger grows by entries that come from rows. -/
theorem accounts_spec {accounts : AccountsDb} (h : Books s) (hdb : WellFormed accounts)
    {entries : List LedgerTransaction}
    (hledger : accounts.ledgerTransactions = s.accounts.ledgerTransactions ++ entries)
    (hentries : ∀ t ∈ entries, ∀ key, t.idempotencyKey = some key → t.type = .onChainDeposit →
      ∃ row ∈ s.deposits, Records row.toDepositTerms t) :
    Persists s { s with accounts } ∧ Books { s with accounts } := by
  have hpersists : Persists s { s with accounts } :=
    ⟨fun _ hstored => hstored, fun t ht => by
      rw [hledger]
      exact List.mem_append_left _ ht⟩
  refine ⟨hpersists, hdb, h.ids, h.hashes, h.accepted, fun t ht key hkey htype => ?_,
    fun row hrow hstatus => (h.credited row hrow hstatus).mono hpersists, h.inFlight⟩
  rw [hledger] at ht
  rcases List.mem_append.mp ht with hold | hnew
  · exact h.ledger t hold key hkey htype
  · exact hentries t hnew key hkey htype

theorem credit_spec {accounts : AccountsDb} {result : Except BalanceFailure Account} (h : Books s)
    (hstored : Stored s deposit) (haccepted : Accepted deposit.toDepositTerms)
    (hcredit : creditDepositFunds settings.isValidUuid newId
      (creditRequest deposit deposit.txHash) s.accounts = (accounts, result)) :
    Persists s { s with accounts } ∧ Books { s with accounts } ∧
      ∀ account, result = .ok account → Entered { s with accounts } deposit.toDepositTerms := by
  have hspec := creditDepositFunds_spec h.wellFormed haccepted hcredit
  obtain ⟨row, hrow, hid, hterms⟩ := hstored
  have hkeeps : Persists s { s with accounts } ∧ Books { s with accounts } := by
    rcases hspec.ledger with hsame | ⟨t, hrecords, hnew⟩
    · exact @accounts_spec s accounts h hspec.wellFormed [] (by rw [hsame, List.append_nil])
        fun _ ht => absurd ht List.not_mem_nil
    · refine accounts_spec h hspec.wellFormed hnew fun t' ht' _ _ _ => ?_
      obtain rfl := List.mem_singleton.mp ht'
      exact ⟨row, hrow, by rwa [hterms]⟩
  refine ⟨hkeeps.1, hkeeps.2, fun account hok => ?_⟩
  obtain ⟨t, ht, hcredits, -, -⟩ := hspec.found account hok
  -- whichever call made the entry, it is that of the one row of the transaction
  obtain ⟨other, hother, hrecords⟩ := hkeeps.2.ledger t ht _ hcredits.2 hcredits.1
  have hhash : other.txHash = row.txHash := by
    have hkey := depositKey_injective
      (Option.some.inj (hrecords.credits.2.symm.trans hcredits.2))
    rw [hkey, hterms]
  obtain rfl := h.hashes.eq hother hrow hhash
  exact ⟨t, ht, hterms ▸ hrecords⟩

theorem foreign_spec {request : Request} {accounts : AccountsDb}
    {answer : Option BalanceMutationStatus} (h : Books s) (hforeign : Foreign request)
    (hstep : accountsMachine.step s.accounts request = some (accounts, answer)) :
    Persists s { s with accounts } ∧ Books { s with accounts } := by
  obtain ⟨hdb, entries, hledger, hentries⟩ := accountsMachine_ledger h.wellFormed hstep
  refine accounts_spec h hdb hledger fun t ht key hkey htype => ?_
  obtain ⟨op, id, params, account, rfl, -, rfl⟩ := hentries t ht key hkey
  have hop : op = .creditDeposit := expectedType_injective htype
  exact absurd hop hforeign

theorem backed_resume (h : ∀ poll, caller = some poll → FromChain chain poll) :
    Backed settings chain s (resume caller) := by
  cases caller with
  | none => trivial
  | some poll => exact h poll rfl

theorem deposit_spec {progress : Processing} (h : Books s)
    (hbacked : Backed settings chain s (.processing event progress caller))
    (hstep : DepositStep settings s event caller progress action s' l') :
    BooksSpec settings chain s s' l' := by
  obtain ⟨hevent, hrelies, hcaller⟩ := hbacked
  have hquiet (hl' : Backed settings chain s l') : BooksSpec settings chain s s l' :=
    booksSpec_same h rfl rfl rfl hl'
  cases hstep with
  | failed => exact hquiet trivial
  | known => exact hquiet (backed_resume hcaller)
  | @retried existing hfind hstatus =>
    obtain ⟨hmem, hhash⟩ := lookup_mem hfind
    exact hquiet ⟨hevent, ⟨stored_of_mem hmem, h.accepted existing hmem hstatus, hhash⟩, hcaller⟩
  | undecodable => exact hquiet (backed_resume hcaller)
  | prepared hfind hnew => exact hquiet ⟨hevent, hnew, hcaller⟩
  | @inserted deposit newId _ hcreate =>
    obtain ⟨hpersists, hbooks, hstored, haccepted⟩ := created_spec h hevent hrelies hcreate
    refine ⟨hpersists, hbooks, ?_⟩
    split
    · next hstatus =>
      exact ⟨hevent, ⟨hstored, haccepted hstatus, (newDeposit_spec hrelies).1⟩, hcaller⟩
    · exact backed_resume hcaller
  | insertedUnheard hcreate =>
    obtain ⟨hpersists, hbooks, -⟩ := created_spec h hevent hrelies hcreate
    exact ⟨hpersists, hbooks, trivial⟩
  | credited hcredit =>
    obtain ⟨hstored, haccepted, hhash⟩ := hrelies
    rw [← hhash] at hcredit
    obtain ⟨hpersists, hbooks, hentered⟩ := credit_spec h hstored haccepted hcredit
    exact ⟨hpersists, hbooks, hevent, ⟨hpersists.stored _ hstored, hentered _ rfl, hhash⟩, hcaller⟩
  | refused hcredit =>
    obtain ⟨hstored, haccepted, hhash⟩ := hrelies
    rw [← hhash] at hcredit
    obtain ⟨hpersists, hbooks, -⟩ := credit_spec h hstored haccepted hcredit
    exact ⟨hpersists, hbooks, backed_resume hcaller⟩
  | @unanswered deposit =>
    obtain ⟨hstored, haccepted, hhash⟩ := hrelies
    refine ⟨⟨fun _ hs => hs, fun _ ht => ht⟩, ?_, backed_resume hcaller⟩
    refine ⟨h.wellFormed, h.ids, h.hashes, h.accepted, h.ledger, h.credited, fun request hr => ?_⟩
    rcases List.mem_append.mp hr with hold | hnew
    · exact h.inFlight request hold
    · obtain rfl := List.mem_singleton.mp hnew
      exact ⟨deposit, hstored, haccepted, by rw [hhash]⟩
  | marked =>
    obtain ⟨hpersists, hbooks⟩ := marked_spec h hrelies.1 hrelies.2.1
    exact ⟨hpersists, hbooks, backed_resume hcaller⟩
  | unmarked => exact hquiet (backed_resume hcaller)

theorem scanFrom_spec {currentBlock fromBlock : ℕ}
    (hscan : scanFrom settings s currentBlock fromBlock = (s', l')) : s'.accounts = s.accounts ∧
      s'.deposits = s.deposits ∧ s'.inFlight = s.inFlight ∧ Backed settings chain s l' := by
  rcases scanFrom_cases settings s currentBlock fromBlock with hidle | ⟨range, -, -, hrange⟩
  · obtain ⟨rfl, rfl⟩ := Prod.mk.inj (hidle.symm.trans hscan)
    exact ⟨rfl, rfl, rfl, trivial⟩
  · obtain ⟨rfl, rfl⟩ := Prod.mk.inj (hrange.symm.trans hscan)
    exact ⟨rfl, rfl, rfl, trivial⟩

theorem poll_spec {progress : Polling} (h : Books s) (hbacked : FromChain chain progress)
    (hstep : PollStep settings chain s progress s' l') : BooksSpec settings chain s s' l' := by
  have hrest {log : DepositEvent} {rest : List DepositEvent} {poll : Polling}
      (hlogs : ∀ other ∈ log :: rest, other ∈ chain.logs) (hpoll : FromChain chain poll) :
      Backed settings chain s (.processing log .finding (some poll)) :=
    ⟨hlogs log List.mem_cons_self, trivial, fun poll' heq => Option.some.inj heq ▸ hpoll⟩
  cases hstep with
  | planned _ hscan =>
    obtain ⟨haccounts, hdeposits, hinFlight, hl'⟩ := @scanFrom_spec _ chain _ _ _ _ _ hscan
    exact booksSpec_same h haccounts hdeposits hinFlight hl'
  | reset hscan =>
    obtain ⟨haccounts, hdeposits, hinFlight, hl'⟩ := @scanFrom_spec _ chain _ _ _ _ _ hscan
    exact booksSpec_same h haccounts hdeposits hinFlight (hl'.mono (persists_of_eq rfl rfl))
  | gotNatives =>
    exact booksSpec_same h rfl rfl rfl fun log hlog => (List.mem_filter.mp hlog).1
  | gotTokens =>
    exact booksSpec_same h rfl rfl rfl fun log hlog => (List.mem_filter.mp hlog).1
  | tookNative =>
    exact booksSpec_same h rfl rfl rfl
      (hrest hbacked fun other hother => hbacked other (List.mem_cons_of_mem _ hother))
  | tookToken =>
    exact booksSpec_same h rfl rfl rfl
      (hrest hbacked fun other hother => hbacked other (List.mem_cons_of_mem _ hother))
  | _ => exact booksSpec_same h rfl rfl rfl trivial

theorem step_spec (h : Books s) (hbacked : Backed settings chain s l)
    (hstep : ProcessStep settings chain s l action s' l') : BooksSpec settings chain s s' l' := by
  cases hstep with
  | started => exact booksSpec_same h rfl rfl rfl trivial
  | delivered hlog =>
    exact booksSpec_same h rfl rfl rfl ⟨hlog, trivial, fun _ h => (Option.some_ne_none _ h.symm).elim⟩
  | poll hstep => exact poll_spec h hbacked hstep
  | deposit hstep => exact deposit_spec h hbacked hstep
  | @arrived request newId hrequest =>
    obtain ⟨deposit, hstored, haccepted, rfl⟩ := h.inFlight request hrequest
    obtain ⟨hpersists, hbooks, -⟩ := @credit_spec settings s newId deposit
      (creditDepositFunds settings.isValidUuid newId _ s.accounts).1 _ h hstored haccepted rfl
    refine ⟨⟨hpersists.stored, hpersists.ledger⟩, ?_, trivial⟩
    exact books_of_eq hbooks rfl rfl fun _ hr => List.mem_of_mem_erase hr
  | accounts hforeign hstep =>
    obtain ⟨hpersists, hbooks⟩ := foreign_spec h hforeign hstep
    exact ⟨hpersists, hbooks, trivial⟩

/-! ### Runs -/

/-- The invariant of the system. -/
structure CreditInvariant (settings : Settings) (chain : Chain) (c : DepositsConfig) : Prop where
  books : Books c.shared
  backed : ∀ p, Backed settings chain c.shared (c.procs p)

theorem creditInvariant_initial : CreditInvariant settings chain initial where
  books := ⟨wellFormed_empty, keyUnique_nil, keyUnique_nil,
    fun _ h => absurd h List.not_mem_nil, fun _ h => absurd h List.not_mem_nil,
    fun _ h => absurd h List.not_mem_nil, fun _ h => absurd h List.not_mem_nil⟩
  backed _ := trivial

theorem creditInvariant_next (hc : CreditInvariant settings chain c)
    (h : (depositsSystem settings chain).next c e = some d) : CreditInvariant settings chain d := by
  obtain ⟨s', l', hs, rfl⟩ := next_cases h
  have hspec := step_spec hc.books (hc.backed e.proc) hs
  refine ⟨hspec.books, fun p => ?_⟩
  change Backed settings chain s' (Function.update c.procs e.proc l' p)
  by_cases hpe : p = e.proc
  · subst hpe
    rw [Function.update_self]
    exact hspec.backed
  · rw [Function.update_of_ne hpe]
    exact (hc.backed p).mono hspec.persists

theorem creditInvariant_of_exec (h : (depositsSystem settings chain).exec initial es = some c) :
    CreditInvariant settings chain c :=
  System.exec_invariant h creditInvariant_initial fun _ _ _ => creditInvariant_next

/-- A deposit is credited at most once: in every run, the ledger has one entry at most for the
deposits of a transaction; it says what the row of the transaction says; and a row is marked
as credited only if the entry is there. -/
theorem credited_at_most_once (h : (depositsSystem settings chain).exec initial es = some c)
    (txHash : String) :
    (c.shared.accounts.ledgerTransactions.filter fun t => CreditsDeposit txHash t).length ≤ 1 ∧
    (∀ t ∈ c.shared.accounts.ledgerTransactions, CreditsDeposit txHash t →
      ∃ row ∈ c.shared.deposits, row.txHash = txHash ∧ t.userId = row.userId ∧
        t.currency = row.currency ∧ t.amount = row.amount) ∧
    ∀ row ∈ c.shared.deposits, row.txHash = txHash → row.status = .credited →
      ∃ t ∈ c.shared.accounts.ledgerTransactions, CreditsDeposit txHash t ∧
        t.userId = row.userId ∧ t.currency = row.currency ∧ t.amount = row.amount := by
  have hbooks := (creditInvariant_of_exec h).books
  refine ⟨?_, fun t ht hcredits => ?_, fun row hrow hhash hstatus => ?_⟩
  · exact hbooks.wellFormed.length_filter_le_one fun t _ hcredits => hcredits.2
  · obtain ⟨row, hrow, hrecords⟩ := hbooks.ledger t ht _ hcredits.2 hcredits.1
    have hhash := depositKey_injective (Option.some.inj (hrecords.credits.2.symm.trans hcredits.2))
    exact ⟨row, hrow, hhash, hrecords.userId, hrecords.currency, hrecords.amount⟩
  · obtain ⟨t, ht, hrecords⟩ := hbooks.credited row hrow hstatus
    exact ⟨t, ht, hhash ▸ hrecords.credits, hrecords.userId, hrecords.currency, hrecords.amount⟩

/-! ### A lost reply -/

def someHash : String := "0x" ++ String.ofList (List.replicate 64 'a')

/-- One and a half ether for a user. -/
def etherDeposit : DepositEvent :=
  ⟨someHash, 7, "0x018f3a2b4c5d7e8f9a0b1c2d3e4f5a6b", none, 1500000000000000000⟩

theorem isHex_someHash : IsHex 32 someHash := ⟨List.replicate 64 'a', by decide⟩

theorem isHex_userBytes16 : IsHex 16 etherDeposit.userBytes16 :=
  ⟨"018f3a2b4c5d7e8f9a0b1c2d3e4f5a6b".toList, by decide⟩

def oneDeposit : Chain where
  logs := [etherDeposit]
  hashes log hlog := List.mem_singleton.mp hlog ▸ isHex_someHash
  userIds log hlog := List.mem_singleton.mp hlog ▸ isHex_userBytes16
  blocks log hlog other hother _ := by
    rw [List.mem_singleton.mp hlog, List.mem_singleton.mp hother]

def noConfirmations : Settings := ⟨0, "0xusdt", fun _ => true⟩

def etherRow : WalletDeposit :=
  ⟨⟨⟨"018f3a2b-4c5d-7e8f-9a0b-1c2d3e4f5a6b", someHash, 7, none, .eth, 150000000⟩, .confirmed⟩, "row"⟩

/-- The scanner does not hear of the credit, which takes effect after the scan. The event is
delivered once more. -/
def unheardCredit : List (Event Action) :=
  [⟨0, .pollBlocks⟩, ⟨0, .getBlockNumber 7⟩] ++ List.replicate 4 ⟨0, .statement⟩ ++
    [⟨0, .insert "row"⟩, ⟨0, .call .unanswered⟩] ++ List.replicate 3 ⟨0, .statement⟩ ++
    [⟨1, .arrive (creditRequest etherRow someHash) "account"⟩,
      ⟨2, .processDepositEvent etherDeposit⟩, ⟨2, .statement⟩, ⟨2, .call (.answered "other")⟩,
      ⟨2, .statement⟩]

theorem unheardCredit_executes :
    ((depositsSystem noConfirmations oneDeposit).exec initial unheardCredit).map
      (fun c => c.shared.deposits.map fun row => row.status) = some [.credited] := by
  decide +kernel

theorem credited_at_most_once_unheardCredit : ∃ c,
    (depositsSystem noConfirmations oneDeposit).exec initial unheardCredit = some c ∧
      c.shared.deposits.map (fun row => row.status) = [.credited] ∧
        (c.shared.accounts.ledgerTransactions.filter
          fun t => CreditsDeposit someHash t).length ≤ 1 := by
  obtain ⟨c, hexec, hstatuses⟩ := Option.map_eq_some_iff.mp unheardCredit_executes
  exact ⟨c, hexec, hstatuses, (credited_at_most_once hexec someHash).1⟩

end EtherTrade.DepositCreditLaws
