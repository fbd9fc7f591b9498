import EtherTrade.DepositCreditLaws
import EtherTrade.ScannerCoverageLaws

/-!
# Deposits behind the cursor

Whether every deposit in the blocks behind the cursor has been credited. The scanner passes
a log once `processDepositEvent` has returned, and it returns when the credit has failed and
when the transaction of the log already has a row. The deposits behind the cursor are
credited when credit calls succeed and no two deposits have one transaction.
-/

namespace EtherTrade.DepositCoverageLaws

open KeyedRows AccountsSchema AccountsDbInvariants BalanceMutations BalancesService
open DepositsSchema DepositTransactions DepositTransactionSteps DepositCreditLaws
open InterleavedProcesses

variable {settings : Settings} {chain : Chain} {s s' : DepositsStore} {l l' : Process}
  {event log : DepositEvent} {caller : Option Polling} {poll : Polling} {txHash : String}
  {action : Action} {current : List DepositEvent} {row : WalletDeposit}
  {c d : DepositsConfig} {e : Event Action} {es : List (Event Action)}

/-- The credit of a deposit. -/
structure DepositCredit where
  txHash : String
  userId : Uuid
  currency : Currency
  amount : ℕ
  deriving DecidableEq, Repr

/-- What the user named by a log is to be credited with, if its token is accepted and its
amount is not below the minimum. -/
def creditOf (usdtTokenAddress : String) (log : DepositEvent) : Option DepositCredit :=
  match bytes16ToUuid log.userBytes16, resolveTokenConfig usdtTokenAddress log.tokenAddress with
  | .ok userId, some tokenConfig =>
    let amount := scaleEvmAmountToPlatform log.rawAmount tokenConfig.decimals
    if minDepositThreshold ≤ amount then some ⟨log.txHash, userId, tokenConfig.currency, amount⟩
    else none
  | _, _ => none

/-- The ledger entry of a credit. -/
def DepositCredit.Entry (credit : DepositCredit) (t : LedgerTransaction) : Prop :=
  CreditsDeposit credit.txHash t ∧ t.userId = credit.userId ∧ t.currency = credit.currency ∧
    t.amount = credit.amount

instance (credit : DepositCredit) (t : LedgerTransaction) : Decidable (credit.Entry t) :=
  inferInstanceAs (Decidable (_ ∧ _))

/-- The logs behind the cursor have a ledger entry each. -/
def Settled (usdtTokenAddress : String) (chain : Chain) (s : DepositsStore) : Prop :=
  ∀ lastScanned, s.lastScannedBlock = some lastScanned → ∀ credit : DepositCredit,
    (chain.logs.filter fun log => log.blockNumber ≤ lastScanned ∧
      creditOf usdtTokenAddress log = some credit).length ≤
        (s.accounts.ledgerTransactions.filter fun t => credit.Entry t).length

/-- Nothing is under way. -/
def Quiescent (c : DepositsConfig) : Prop := (∀ p, c.procs p = .idle) ∧ c.shared.inFlight = []

/-- The logs in the order in which a scan comes to them. -/
def inOrder (chain : Chain) : List DepositEvent :=
  (chain.logs.filter fun log => log.tokenAddress.isNone) ++
    chain.logs.filter fun log => log.tokenAddress.isSome

/-- A scan comes to the log before the others of its transaction, and none of those is to be
credited. -/
def LeadsTransaction (usdtTokenAddress : String) (chain : Chain) (log : DepositEvent) : Prop :=
  ∃ others, (inOrder chain).filter (fun other => other.txHash = log.txHash) = log :: others ∧
    ∀ other ∈ others, creditOf usdtTokenAddress other = none

/-- Every log that is to be credited leads its transaction. -/
def OwnTransactions (usdtTokenAddress : String) (chain : Chain) : Prop :=
  ∀ log ∈ chain.logs, creditOf usdtTokenAddress log ≠ none →
    LeadsTransaction usdtTokenAddress chain log

/-- The step is a credit call that the accounts service does not answer with success. -/
def creditFails (settings : Settings) (c : DepositsConfig) (e : Event Action) : Bool :=
  match c.procs e.proc, e.action with
  | .processing event (.crediting deposit) _, .call (.answered newId) =>
    match (creditDepositFunds settings.isValidUuid newId (creditRequest deposit event.txHash)
      c.shared.accounts).2 with
    | .ok _ => false
    | .error _ => true
  | .processing _ (.crediting _) _, .call .unanswered => true
  | _, _ => false

/-- Events are delivered by scans only, and credit calls succeed. -/
def CreditsSucceed (settings : Settings) (c : DepositsConfig) (e : Event Action) : Prop :=
  (∀ event, e.action ≠ .processDepositEvent event) ∧ creditFails settings c e = false

/-! ### Logs and rows -/

/-- The first log of a transaction. -/
def firstLog (chain : Chain) (txHash : String) : Option DepositEvent :=
  (inOrder chain).find? fun log => log.txHash = txHash

/-- Every row is that of the first log of its transaction. -/
def RowsOfFirstLogs (settings : Settings) (chain : Chain) (s : DepositsStore) : Prop :=
  ∀ row ∈ s.deposits, ∃ log deposit, firstLog chain row.txHash = some log ∧
    newDeposit settings.usdtTokenAddress log = .ok deposit ∧
      row.toDepositTerms = deposit.toDepositTerms ∧
        (row.status = deposit.status ∨ row.status = .credited)

def HasRow (s : DepositsStore) (txHash : String) : Prop :=
  ∃ row ∈ s.deposits, row.txHash = txHash

/-- What the log is to be credited with is in the ledger. -/
def Credited (usdtTokenAddress : String) (s : DepositsStore) (log : DepositEvent) : Prop :=
  ∀ credit, creditOf usdtTokenAddress log = some credit →
    ∃ t ∈ s.accounts.ledgerTransactions, credit.Entry t

theorem creditOf_eq_some {usdtTokenAddress : String} {credit : DepositCredit}
    (h : creditOf usdtTokenAddress log = some credit) :
    ∃ deposit, newDeposit usdtTokenAddress log = .ok deposit ∧ deposit.status = .confirmed ∧
      credit = ⟨deposit.txHash, deposit.userId, deposit.currency, deposit.amount⟩ := by
  unfold creditOf at h
  split at h
  · next userId tokenConfig huser htoken =>
    dsimp only at h
    split at h
    · next hamount =>
      obtain rfl := Option.some.inj h
      refine ⟨⟨⟨userId, log.txHash, log.blockNumber, log.tokenAddress, tokenConfig.currency,
        scaleEvmAmountToPlatform log.rawAmount tokenConfig.decimals⟩, .confirmed⟩, ?_, rfl, rfl⟩
      simp only [newDeposit, huser, htoken, isAboveMinDepositThreshold, hamount, decide_true,
        if_true]
      rfl
    · cases h
  · cases h

theorem exists_newDeposit (usdtTokenAddress : String) (hlog : log ∈ chain.logs) :
    ∃ deposit, newDeposit usdtTokenAddress log = .ok deposit := by
  obtain ⟨userId, huser⟩ := exists_uuid (chain.userIds log hlog)
  simp only [newDeposit, huser]
  cases resolveTokenConfig usdtTokenAddress log.tokenAddress with
  | none => exact ⟨_, rfl⟩
  | some tokenConfig => exact ⟨_, rfl⟩

theorem firstLog_of_leads {usdtTokenAddress : String}
    (h : LeadsTransaction usdtTokenAddress chain log) : firstLog chain log.txHash = some log := by
  obtain ⟨others, hlogs, -⟩ := h
  rw [firstLog, ← List.head?_filter, hlogs, List.head?_cons]

/-- Of a log that leads its transaction, the row says what is to be credited. -/
theorem entry_of_records (hrows : RowsOfFirstLogs settings chain s)
    (hown : OwnTransactions settings.usdtTokenAddress chain) (hlog : log ∈ chain.logs)
    (hrow : row ∈ s.deposits) (hhash : row.txHash = log.txHash) {credit : DepositCredit}
    (hcredit : creditOf settings.usdtTokenAddress log = some credit) :
    (row.status = .confirmed ∨ row.status = .credited) ∧
      ∀ t, Records row.toDepositTerms t → credit.Entry t := by
  obtain ⟨first, deposit, hfirst, hnew, hterms, hstatus⟩ := hrows row hrow
  have hleads := hown log hlog (by simp [hcredit])
  rw [hhash, firstLog_of_leads hleads] at hfirst
  obtain rfl := Option.some.inj hfirst
  obtain ⟨deposit', hnew', hconfirmed, rfl⟩ := creditOf_eq_some hcredit
  obtain rfl := Except.ok.inj (hnew.symm.trans hnew')
  refine ⟨hstatus.imp_left fun h => h.trans hconfirmed, fun t ht => ?_⟩
  rw [hterms] at ht
  exact ⟨ht.credits, ht.userId, ht.currency, ht.amount⟩

/-! ### Scans -/

/-- A scan has passed the log: its transaction has a row, and its credit is in the ledger. -/
structure Passed (settings : Settings) (s : DepositsStore) (log : DepositEvent) : Prop where
  hasRow : HasRow s log.txHash
  credited : Credited settings.usdtTokenAddress s log

/-- Where a scan is: it has passed the logs before the current ones. -/
def InScan (settings : Settings) (chain : Chain) (s : DepositsStore) (current : List DepositEvent) :
    Polling → Prop
  | .nativeLogs range rest => ∃ before, chain.nativeLogs range = before ++ current ++ rest ∧
      ∀ log ∈ before, Passed settings s log
  | .tokenLogs range rest => (∀ log ∈ chain.nativeLogs range, Passed settings s log) ∧
      ∃ before, chain.tokenLogs range = before ++ current ++ rest ∧
        ∀ log ∈ before, Passed settings s log
  | _ => current = []

/-- A process that handles an event is in a scan; the row it is about to store is the first of
its transaction. -/
def Scans (settings : Settings) (chain : Chain) (s : DepositsStore) : Process → Prop
  | .idle => True
  | .polling poll => InScan settings chain s [] poll
  | .processing event progress caller =>
      (∃ poll, caller = some poll ∧ InScan settings chain s [event] poll) ∧
        ∀ deposit, progress = .inserting deposit → firstLog chain event.txHash = some event

theorem HasRow.mono (h : HasRow s txHash) (hs : Persists s s') : HasRow s' txHash := by
  obtain ⟨row, hrow, hhash⟩ := h
  obtain ⟨row', hrow', -, hterms⟩ := hs.stored row (stored_of_mem hrow)
  exact ⟨row', hrow', (congrArg DepositTerms.txHash hterms).trans hhash⟩

theorem Credited.mono {usdtTokenAddress : String} (h : Credited usdtTokenAddress s log)
    (hs : Persists s s') : Credited usdtTokenAddress s' log := by
  intro credit hcredit
  obtain ⟨t, ht, hentry⟩ := h credit hcredit
  exact ⟨t, hs.ledger t ht, hentry⟩

theorem Passed.mono (h : Passed settings s log) (hs : Persists s s') : Passed settings s' log :=
  ⟨h.hasRow.mono hs, h.credited.mono hs⟩

theorem InScan.mono (h : InScan settings chain s current poll) (hs : Persists s s') :
    InScan settings chain s' current poll := by
  cases poll with
  | nativeLogs range rest =>
    obtain ⟨before, hlogs, hpassed⟩ := h
    exact ⟨before, hlogs, fun log hlog => (hpassed log hlog).mono hs⟩
  | tokenLogs range rest =>
    obtain ⟨hnatives, before, hlogs, hpassed⟩ := h
    exact ⟨fun log hlog => (hnatives log hlog).mono hs, before, hlogs,
      fun log hlog => (hpassed log hlog).mono hs⟩
  | _ => exact h

theorem Scans.mono (h : Scans settings chain s l) (hs : Persists s s') :
    Scans settings chain s' l := by
  cases l with
  | idle => trivial
  | polling => exact InScan.mono h hs
  | processing event progress caller =>
    obtain ⟨⟨poll, hcaller, hscan⟩, hfirst⟩ := h
    exact ⟨⟨poll, hcaller, hscan.mono hs⟩, hfirst⟩

/-- The scan goes on behind the current log. -/
theorem InScan.pass (h : InScan settings chain s [event] poll) (hpassed : Passed settings s event) :
    InScan settings chain s [] poll := by
  have hbefore {before : List DepositEvent} (hall : ∀ log ∈ before, Passed settings s log) :
      ∀ log ∈ before ++ [event], Passed settings s log := by
    intro log hlog
    rcases List.mem_append.mp hlog with hold | hnew
    · exact hall log hold
    · exact List.mem_singleton.mp hnew ▸ hpassed
  cases poll with
  | nativeLogs range rest =>
    obtain ⟨before, hlogs, hall⟩ := h
    exact ⟨before ++ [event], by rw [List.append_nil]; exact hlogs, hbefore hall⟩
  | tokenLogs range rest =>
    obtain ⟨hnatives, before, hlogs, hall⟩ := h
    exact ⟨hnatives, before ++ [event], by rw [List.append_nil]; exact hlogs, hbefore hall⟩
  | _ => cases h

theorem find?_of_hash (range : BlockRange) (hevent : event ∈ chain.logs)
    (hcovers : range.Covers event.blockNumber) (kind : DepositEvent → Bool) :
    (chain.logs.filter kind).find? (fun log => log.txHash = event.txHash) =
      (chain.logs.filter fun log => kind log && decide (range.Covers log.blockNumber)).find?
        fun log => log.txHash = event.txHash := by
  rw [← List.head?_filter, ← List.head?_filter, List.filter_filter, List.filter_filter]
  refine congrArg List.head? (List.filter_congr fun log hlog => ?_)
  by_cases hhash : log.txHash = event.txHash
  · rw [chain.blocks log hlog event hevent hhash]
    simp [hhash, hcovers]
  · simp [hhash]

/-- A log whose transaction has no row is the first of it. -/
theorem InScan.firstLog_eq (h : InScan settings chain s [event] poll)
    (hfind : findDepositByTxHash s event.txHash = none) :
    firstLog chain event.txHash = some event := by
  have hnone : ∀ log, Passed settings s log → log.txHash ≠ event.txHash := by
    rintro log ⟨⟨row, hrow, hhash⟩, -⟩ heq
    exact lookup_eq_none.mp hfind row hrow (hhash.trans heq)
  have hbefore {before rest : List DepositEvent} (hall : ∀ log ∈ before, Passed settings s log) :
      (before ++ [event] ++ rest).find? (fun log => log.txHash = event.txHash) = some event := by
    have hmissing : before.find? (fun log => log.txHash = event.txHash) = none := by
      refine List.find?_eq_none.mpr fun log hlog => ?_
      simpa using hnone log (hall log hlog)
    rw [List.append_assoc, List.find?_append, hmissing, Option.none_or]
    exact List.find?_cons_of_pos (decide_eq_true rfl)
  cases poll with
  | nativeLogs range rest =>
    obtain ⟨before, hlogs, hall⟩ := h
    have hmem : event ∈ chain.nativeLogs range := by simp [hlogs]
    obtain ⟨hevent, hkind⟩ := List.mem_filter.mp hmem
    have hcovers := of_decide_eq_true (Bool.and_eq_true_iff.mp hkind).2
    have hnatives := find?_of_hash range hevent hcovers fun log => log.tokenAddress.isNone
    change _ = (chain.nativeLogs range).find? _ at hnatives
    rw [hlogs, hbefore hall] at hnatives
    rw [firstLog, inOrder, List.find?_append, hnatives, Option.some_or]
  | tokenLogs range rest =>
    obtain ⟨hpassed, before, hlogs, hall⟩ := h
    have hmem : event ∈ chain.tokenLogs range := by simp [hlogs]
    obtain ⟨hevent, hkind⟩ := List.mem_filter.mp hmem
    have hcovers := of_decide_eq_true (Bool.and_eq_true_iff.mp hkind).2
    have hnatives := find?_of_hash range hevent hcovers fun log => log.tokenAddress.isNone
    change _ = (chain.nativeLogs range).find? _ at hnatives
    have hmissing : (chain.nativeLogs range).find? (fun log => log.txHash = event.txHash) = none := by
      refine List.find?_eq_none.mpr fun log hlog => ?_
      simpa using hnone log (hpassed log hlog)
    have htokens := find?_of_hash range hevent hcovers fun log => log.tokenAddress.isSome
    change _ = (chain.tokenLogs range).find? _ at htokens
    rw [hlogs, hbefore hall] at htokens
    rw [firstLog, inOrder, List.find?_append, hnatives, hmissing, htokens, Option.none_or]
  | _ => cases h

/-! ### Steps -/

theorem hasRow_of_stored {deposit : WalletDeposit} (h : Stored s deposit)
    (hhash : deposit.txHash = txHash) : HasRow s txHash := by
  obtain ⟨row, hrow, -, hterms⟩ := h
  exact ⟨row, hrow, (congrArg DepositTerms.txHash hterms).trans hhash⟩

theorem passed_of_entered {deposit : WalletDeposit}
    (hrows : RowsOfFirstLogs settings chain s)
    (hown : OwnTransactions settings.usdtTokenAddress chain) (hevent : event ∈ chain.logs)
    (hstored : Stored s deposit) (hhash : deposit.txHash = event.txHash)
    (hentered : Entered s deposit.toDepositTerms) : Passed settings s event := by
  refine ⟨hasRow_of_stored hstored hhash, fun credit hcredit => ?_⟩
  obtain ⟨row, hrow, -, hterms⟩ := hstored
  obtain ⟨t, ht, hrecords⟩ := hentered
  have hrow' : row.txHash = event.txHash := (congrArg DepositTerms.txHash hterms).trans hhash
  exact ⟨t, ht, (entry_of_records hrows hown hevent hrow hrow' hcredit).2 t (hterms ▸ hrecords)⟩

/-- A row with a different status than confirmed is of a log that is credited or never will
be. -/
theorem passed_of_known (hbooks : Books s) (hrows : RowsOfFirstLogs settings chain s)
    (hown : OwnTransactions settings.usdtTokenAddress chain) (hevent : event ∈ chain.logs)
    (hfind : findDepositByTxHash s event.txHash = some row) (hstatus : row.status ≠ .confirmed) :
    Passed settings s event := by
  obtain ⟨hrow, hhash⟩ := lookup_mem hfind
  refine ⟨⟨row, hrow, hhash⟩, fun credit hcredit => ?_⟩
  obtain ⟨hcredited, hentry⟩ := entry_of_records hrows hown hevent hrow hhash hcredit
  obtain ⟨t, ht, hrecords⟩ := hbooks.credited row hrow (hcredited.resolve_left hstatus)
  exact ⟨t, ht, hentry t hrecords⟩

theorem rowsOfFirstLogs_created {deposit : NewWalletDeposit} {newId : Uuid}
    (hrows : RowsOfFirstLogs settings chain s) (hfirst : firstLog chain event.txHash = some event)
    (hnew : newDeposit settings.usdtTokenAddress event = .ok deposit)
    (hcreate : createDeposit s deposit newId = some s') : RowsOfFirstLogs settings chain s' := by
  obtain ⟨-, -, -, -, hdeposits⟩ := createDeposit_eq_some hcreate
  intro row hrow
  rw [hdeposits] at hrow
  rcases List.mem_append.mp hrow with hold | hrow
  · exact hrows row hold
  · obtain rfl := List.mem_singleton.mp hrow
    refine ⟨event, deposit, ?_, hnew, rfl, Or.inl rfl⟩
    rw [← hfirst]
    exact congrArg (firstLog chain) (newDeposit_spec hnew).1

theorem rowsOfFirstLogs_marked {id : Uuid} (hrows : RowsOfFirstLogs settings chain s) :
    RowsOfFirstLogs settings chain (updateDepositStatus s id .credited) := by
  intro row hrow
  obtain ⟨before, hbefore, rfl⟩ := List.mem_map.mp hrow
  obtain ⟨log, deposit, hfirst, hnew, hterms, hstatus⟩ := hrows before hbefore
  split
  · exact ⟨log, deposit, hfirst, hnew, hterms, Or.inr rfl⟩
  · exact ⟨log, deposit, hfirst, hnew, hterms, hstatus⟩

/-- What a step keeps of the rows and of its scan. -/
structure PassSpec (settings : Settings) (chain : Chain) (s s' : DepositsStore) (l' : Process) :
    Prop where
  rows : RowsOfFirstLogs settings chain s'
  scans : Scans settings chain s' l'
  scanned : ∀ range ∈ s'.scanned, range ∈ s.scanned ∨
    ∀ log ∈ chain.logs, range.Covers log.blockNumber → Passed settings s' log

theorem scans_resume (h : InScan settings chain s [event] poll)
    (hpassed : Passed settings s event) : Scans settings chain s (resume (some poll)) :=
  h.pass hpassed

theorem deposit_passes {progress : Processing} (hbooks : Books s)
    (hown : OwnTransactions settings.usdtTokenAddress chain)
    (hbacked : Backed settings chain s (.processing event progress caller))
    (hrows : RowsOfFirstLogs settings chain s)
    (hscans : Scans settings chain s (.processing event progress caller))
    (hsucceeds : ∀ deposit, progress = .crediting deposit →
      ∃ newId account accounts, action = .call (.answered newId) ∧
        creditDepositFunds settings.isValidUuid newId (creditRequest deposit event.txHash)
          s.accounts = (accounts, .ok account))
    (h : DepositStep settings s event caller progress action s' l') :
    PassSpec settings chain s s' l' := by
  have hspec := deposit_spec hbooks hbacked h
  obtain ⟨hevent, hrelies, -⟩ := hbacked
  obtain ⟨⟨poll, rfl, hscan⟩, hfirst⟩ := hscans
  cases h with
  | failed => exact ⟨hrows, trivial, fun _ h => Or.inl h⟩
  | known hfind hstatus =>
    exact ⟨hrows, scans_resume hscan (passed_of_known hbooks hrows hown hevent hfind hstatus),
      fun _ h => Or.inl h⟩
  | retried => exact ⟨hrows, ⟨⟨poll, rfl, hscan⟩, by simp⟩, fun _ h => Or.inl h⟩
  | undecodable _ hnew =>
    obtain ⟨deposit, hdeposit⟩ := exists_newDeposit settings.usdtTokenAddress hevent
    cases hnew.symm.trans hdeposit
  | prepared hfind =>
    exact ⟨hrows, ⟨⟨poll, rfl, hscan⟩, fun _ _ => hscan.firstLog_eq hfind⟩, fun _ h => Or.inl h⟩
  | @inserted deposit newId _ hcreate =>
    have hrows' := rowsOfFirstLogs_created hrows (hfirst deposit rfl) hrelies hcreate
    have hscan' := hscan.mono hspec.persists
    obtain ⟨-, -, hstored, -⟩ := created_spec hbooks hevent hrelies hcreate
    have hscanned : s'.scanned = s.scanned := by
      have hscanner := ScannerCoverageLaws.scanner_createDeposit hcreate
      simp only [ScannerCoverageLaws.scanner, Prod.mk.injEq] at hscanner
      exact hscanner.2.2.2
    refine ⟨hrows', ?_, fun _ h => Or.inl (hscanned ▸ h)⟩
    split
    · exact ⟨⟨poll, rfl, hscan'⟩, by simp⟩
    · next hstatus =>
      refine scans_resume hscan' ⟨hasRow_of_stored hstored (newDeposit_spec hrelies).1, ?_⟩
      intro credit hcredit
      obtain ⟨deposit', hnew, hconfirmed, -⟩ := creditOf_eq_some hcredit
      obtain rfl := Except.ok.inj (hnew.symm.trans hrelies)
      exact absurd hconfirmed hstatus
  | @insertedUnheard deposit newId _ hcreate =>
    have hscanned : s'.scanned = s.scanned := by
      have hscanner := ScannerCoverageLaws.scanner_createDeposit hcreate
      simp only [ScannerCoverageLaws.scanner, Prod.mk.injEq] at hscanner
      exact hscanner.2.2.2
    exact ⟨rowsOfFirstLogs_created hrows (hfirst deposit rfl) hrelies hcreate, trivial,
      fun _ h => Or.inl (hscanned ▸ h)⟩
  | credited =>
    exact ⟨hrows, ⟨⟨poll, rfl, hscan.mono hspec.persists⟩, by simp⟩, fun _ h => Or.inl h⟩
  | refused hcredit =>
    obtain ⟨newId, account, accounts, haction, hok⟩ := hsucceeds _ rfl
    cases haction
    cases hcredit.symm.trans hok
  | unanswered =>
    obtain ⟨newId, account, accounts, haction, -⟩ := hsucceeds _ rfl
    cases haction
  | marked =>
    have hpassed := passed_of_entered hrows hown hevent hrelies.1 hrelies.2.2 hrelies.2.1
    exact ⟨rowsOfFirstLogs_marked hrows, scans_resume (hscan.mono hspec.persists)
      (hpassed.mono hspec.persists), fun _ h => Or.inl h⟩
  | unmarked =>
    exact ⟨hrows, scans_resume hscan
      (passed_of_entered hrows hown hevent hrelies.1 hrelies.2.2 hrelies.2.1), fun _ h => Or.inl h⟩

theorem poll_passes (hrows : RowsOfFirstLogs settings chain s)
    (hscan : InScan settings chain s [] poll) (h : PollStep settings chain s poll s' l') :
    PassSpec settings chain s s' l' := by
  have hplan {store : DepositsStore} {currentBlock fromBlock : ℕ}
      (hstore : store.deposits = s.deposits ∧ store.scanned = s.scanned)
      (hplanned : scanFrom settings store currentBlock fromBlock = (s', l')) :
      PassSpec settings chain s s' l' := by
    have hrows' : RowsOfFirstLogs settings chain store := fun row hrow =>
      hrows row (hstore.1 ▸ hrow)
    rcases scanFrom_cases settings store currentBlock fromBlock with hidle | ⟨range, -, -, hrange⟩
    · obtain ⟨rfl, rfl⟩ := Prod.mk.inj (hidle.symm.trans hplanned)
      exact ⟨hrows', trivial, fun _ h => Or.inl (hstore.2 ▸ h)⟩
    · obtain ⟨rfl, rfl⟩ := Prod.mk.inj (hrange.symm.trans hplanned)
      exact ⟨hrows', rfl, fun _ h => Or.inl (hstore.2 ▸ h)⟩
  cases h with
  | failed => exact ⟨hrows, trivial, fun _ h => Or.inl h⟩
  | observed => exact ⟨hrows, rfl, fun _ h => Or.inl h⟩
  | resetting => exact ⟨hrows, rfl, fun _ h => Or.inl h⟩
  | planned _ hplanned => exact hplan ⟨rfl, rfl⟩ hplanned
  | reset hplanned => exact @hplan { s with lastScannedBlock := some 0 } _ _ ⟨rfl, rfl⟩ hplanned
  | gotNatives =>
    exact ⟨hrows, ⟨[], rfl, fun _ h => absurd h List.not_mem_nil⟩, fun _ h => Or.inl h⟩
  | tookNative =>
    obtain ⟨before, hlogs, hall⟩ := hscan
    exact ⟨hrows, ⟨⟨_, rfl, before, by simpa using hlogs, hall⟩, by simp⟩, fun _ h => Or.inl h⟩
  | gotTokens =>
    obtain ⟨before, hlogs, hall⟩ := hscan
    rw [List.append_nil, List.append_nil] at hlogs
    exact ⟨hrows, ⟨fun log hlog => hall log (hlogs ▸ hlog), [], rfl,
      fun _ h => absurd h List.not_mem_nil⟩, fun _ h => Or.inl h⟩
  | tookToken =>
    obtain ⟨hnatives, before, hlogs, hall⟩ := hscan
    exact ⟨hrows, ⟨⟨_, rfl, hnatives, before, by simpa using hlogs, hall⟩, by simp⟩,
      fun _ h => Or.inl h⟩
  | @completed range =>
    obtain ⟨hnatives, before, hlogs, hall⟩ := hscan
    rw [List.append_nil, List.append_nil] at hlogs
    refine ⟨hrows, rfl, fun other hother => ?_⟩
    rcases List.mem_append.mp hother with hold | hnew
    · exact Or.inl hold
    · obtain rfl := List.mem_singleton.mp hnew
      refine Or.inr fun log hlog hcovers => ?_
      have hpassed : Passed settings s log := by
        cases hkind : log.tokenAddress with
        | none => exact hnatives log (List.mem_filter.mpr ⟨hlog, by simp [hkind, hcovers]⟩)
        | some tokenAddress =>
          exact hall log (hlogs ▸ List.mem_filter.mpr ⟨hlog, by simp [hkind, hcovers]⟩)
      exact hpassed.mono (persists_of_eq rfl rfl)
  | advanced => exact ⟨hrows, trivial, fun _ h => Or.inl h⟩

/-! ### Runs -/

/-- The invariant of runs in which credit calls succeed. -/
structure Passing (settings : Settings) (chain : Chain) (c : DepositsConfig) : Prop where
  credit : CreditInvariant settings chain c
  rows : RowsOfFirstLogs settings chain c.shared
  scanned : ∀ range ∈ c.shared.scanned, ∀ log ∈ chain.logs, range.Covers log.blockNumber →
    Passed settings c.shared log
  scans : ∀ p, Scans settings chain c.shared (c.procs p)

theorem passing_initial : Passing settings chain initial where
  credit := creditInvariant_initial
  rows := fun _ h => absurd h List.not_mem_nil
  scanned := fun _ h => absurd h List.not_mem_nil
  scans _ := trivial

/-- A credit call that does not fail is answered with success. -/
theorem credit_succeeds {deposit : WalletDeposit}
    (hproc : c.procs e.proc = .processing event (.crediting deposit) caller)
    (hfails : creditFails settings c e = false)
    (h : (depositsSystem settings chain).next c e = some d) :
    ∃ newId account accounts, e.action = .call (.answered newId) ∧
      creditDepositFunds settings.isValidUuid newId (creditRequest deposit event.txHash)
        c.shared.accounts = (accounts, .ok account) := by
  obtain ⟨s', l', hs, -⟩ := System.next_eq_some.mp h
  change step settings chain e.proc c.shared (c.procs e.proc) e.action = some (s', l') at hs
  unfold creditFails at hfails
  rw [hproc] at hs hfails
  cases haction : e.action with
  | call delivery =>
    rw [haction] at hfails
    cases delivery with
    | answered newId =>
      dsimp only at hfails
      split at hfails
      · next account hok => exact ⟨newId, account, _, rfl, Prod.ext rfl hok⟩
      · cases hfails
    | unanswered => cases hfails
  | _ =>
    rw [haction] at hs
    cases hs

theorem passing_next (hown : OwnTransactions settings.usdtTokenAddress chain)
    (hc : Passing settings chain c) (hguard : CreditsSucceed settings c e)
    (h : (depositsSystem settings chain).next c e = some d) : Passing settings chain d := by
  have hcredit := creditInvariant_next hc.credit h
  obtain ⟨s', l', hstep, rfl⟩ := next_cases h
  have hpersists := (step_spec hc.credit.books (hc.credit.backed e.proc) hstep).persists
  have hspec : PassSpec settings chain c.shared s' l' := by
    have hscans := hc.scans e.proc
    have hbacked := hc.credit.backed e.proc
    generalize hproc : c.procs e.proc = l at hstep hscans hbacked
    generalize haction : e.action = action at hstep
    cases hstep with
    | started => exact ⟨hc.rows, rfl, fun _ h => Or.inl h⟩
    | delivered => exact absurd haction (hguard.1 _)
    | poll hpoll => exact poll_passes hc.rows hscans hpoll
    | deposit hdeposit =>
      refine deposit_passes hc.credit.books hown hbacked hc.rows hscans ?_ hdeposit
      rintro deposit rfl
      rw [← haction]
      exact credit_succeeds hproc hguard.2 h
    | arrived => exact ⟨hc.rows, trivial, fun _ h => Or.inl h⟩
    | accounts => exact ⟨hc.rows, trivial, fun _ h => Or.inl h⟩
  refine ⟨hcredit, hspec.rows, fun range hrange => ?_, fun p => ?_⟩
  · rcases hspec.scanned range hrange with hold | hnew
    · exact fun log hlog hcovers => (hc.scanned range hold log hlog hcovers).mono hpersists
    · exact hnew
  · change Scans settings chain s' (Function.update c.procs e.proc l' p)
    by_cases hpe : p = e.proc
    · subst hpe
      rw [Function.update_self]
      exact hspec.scans
    · rw [Function.update_of_ne hpe]
      exact (hc.scans p).mono hpersists

/-- Of the logs with one credit there is one at most. -/
theorem length_creditOf_le (hown : OwnTransactions settings.usdtTokenAddress chain)
    (credit : DepositCredit) : (chain.logs.filter fun log =>
      creditOf settings.usdtTokenAddress log = some credit).length ≤ 1 := by
  have hperm : (inOrder chain).Perm chain.logs := by
    refine List.Perm.trans (List.Perm.of_eq ?_)
      (List.filter_append_perm (fun log : DepositEvent => log.tokenAddress.isNone) chain.logs)
    simp [inOrder]
  rw [← (hperm.filter _).length_eq]
  cases hlogs : (inOrder chain).filter fun log =>
      creditOf settings.usdtTokenAddress log = some credit with
  | nil => exact Nat.zero_le 1
  | cons log rest =>
    have hmem : log ∈ (inOrder chain).filter fun log =>
        creditOf settings.usdtTokenAddress log = some credit := hlogs ▸ List.mem_cons_self
    obtain ⟨hlog, hcredit⟩ := List.mem_filter.mp hmem
    have hcredit := of_decide_eq_true hcredit
    obtain ⟨others, hothers, hnone⟩ := hown log (hperm.mem_iff.mp hlog) (by simp [hcredit])
    have hsame : ∀ other, creditOf settings.usdtTokenAddress other = some credit →
        other.txHash = log.txHash := by
      intro other hother
      obtain ⟨deposit, hnew, -, rfl⟩ := creditOf_eq_some hother
      obtain ⟨deposit', hnew', -, heq⟩ := creditOf_eq_some hcredit
      rw [← (newDeposit_spec hnew).1, ← (newDeposit_spec hnew').1]
      exact congrArg DepositCredit.txHash heq
    have hfilter : (inOrder chain).filter (fun other =>
        creditOf settings.usdtTokenAddress other = some credit) =
          (log :: others).filter fun other =>
            creditOf settings.usdtTokenAddress other = some credit := by
      rw [← hothers, List.filter_filter]
      refine List.filter_congr fun other _ => ?_
      by_cases hother : creditOf settings.usdtTokenAddress other = some credit
      · simp [hother, hsame other hother]
      · simp [hother]
    have hempty : others.filter (fun other =>
        creditOf settings.usdtTokenAddress other = some credit) = [] := by
      refine List.filter_eq_nil_iff.mpr fun other hother => ?_
      simp [hnone other hother]
    rw [← hlogs, hfilter, List.filter_cons, hempty]
    split <;> simp

/-- No deposit is lost behind the cursor: when every log that is to be credited leads its
transaction, and in the run every credit call succeeds, then in every state reached the logs
in the blocks up to the cursor have been credited. -/
theorem settled_behind_cursor (hown : OwnTransactions settings.usdtTokenAddress chain)
    (hrun : (depositsSystem settings chain).Run (CreditsSucceed settings) initial es c) :
    Settled settings.usdtTokenAddress chain c.shared := by
  have hc : Passing settings chain c :=
    hrun.invariant passing_initial fun _ _ _ hc hguard hnext => passing_next hown hc hguard hnext
  intro lastScanned hcursor credit
  have hle : (chain.logs.filter fun log => log.blockNumber ≤ lastScanned ∧
      creditOf settings.usdtTokenAddress log = some credit).length ≤ 1 := by
    refine le_trans ?_ (length_creditOf_le hown credit)
    refine (List.monotone_filter_right _ fun log hlog => ?_).length_le
    exact decide_eq_true (of_decide_eq_true hlog).2
  rcases Nat.eq_zero_or_pos (chain.logs.filter fun log => log.blockNumber ≤ lastScanned ∧
      creditOf settings.usdtTokenAddress log = some credit).length with hzero | hpos
  · rw [hzero]
    exact Nat.zero_le _
  · obtain ⟨log, hmem⟩ := List.exists_mem_of_length_pos hpos
    obtain ⟨hlog, hcond⟩ := List.mem_filter.mp hmem
    obtain ⟨hblock, hcredit⟩ := of_decide_eq_true hcond
    obtain ⟨range, hrange, hcovers⟩ :=
      (ScannerCoverageLaws.blocks_covered hrun.executes).1 lastScanned hcursor _ hblock
    obtain ⟨t, ht, hentry⟩ := (hc.scanned range hrange log hlog hcovers).credited credit hcredit
    exact hle.trans (List.length_pos_of_mem (List.mem_filter.mpr ⟨ht, decide_eq_true hentry⟩))

/-- The condition, checked on one transition. -/
def meetsCondition (settings : Settings)
    (t : System.Transition DepositsStore Process Action) : Bool :=
  (match t.event.action with
    | .processDepositEvent _ => false
    | _ => true) && !creditFails settings t.before t.event

theorem run_of_meetsCondition (h : (depositsSystem settings chain).exec initial es = some c)
    (hall : ((depositsSystem settings chain).transitions initial es).all
      (meetsCondition settings) = true) :
    (depositsSystem settings chain).Run (CreditsSucceed settings) initial es c := by
  refine .of_check h hall fun t hmeets => ?_
  simp only [meetsCondition, Bool.and_eq_true, Bool.not_eq_true'] at hmeets
  refine ⟨fun event haction => ?_, hmeets.2⟩
  rw [haction] at hmeets
  cases hmeets.1

/-- One poll that finds a deposit, and whose steps all succeed. -/
def onePoll : List (Event Action) :=
  [⟨0, .pollBlocks⟩, ⟨0, .getBlockNumber 7⟩] ++ List.replicate 4 ⟨0, .statement⟩ ++
    [⟨0, .insert "row"⟩, ⟨0, .call (.answered "account")⟩] ++ List.replicate 4 ⟨0, .statement⟩

theorem ownTransactions_oneDeposit :
    OwnTransactions noConfirmations.usdtTokenAddress oneDeposit := by
  intro log hlog _
  obtain rfl := List.mem_singleton.mp hlog
  exact ⟨[], rfl, fun _ h => absurd h List.not_mem_nil⟩

theorem onePoll_executes :
    ((depositsSystem noConfirmations oneDeposit).exec initial onePoll).map
      (fun c => c.shared.lastScannedBlock) = some (some 7) ∧
    ((depositsSystem noConfirmations oneDeposit).transitions initial onePoll).all
      (meetsCondition noConfirmations) = true := by
  decide +kernel

theorem settled_behind_cursor_onePoll : ∃ c,
    (depositsSystem noConfirmations oneDeposit).exec initial onePoll = some c ∧
      c.shared.lastScannedBlock = some 7 ∧
        Settled noConfirmations.usdtTokenAddress oneDeposit c.shared := by
  obtain ⟨c, hexec, hcursor⟩ := Option.map_eq_some_iff.mp onePoll_executes.1
  exact ⟨c, hexec, hcursor, settled_behind_cursor ownTransactions_oneDeposit
    (run_of_meetsCondition hexec onePoll_executes.2)⟩

/-- Another user's deposit in the same transaction. -/
def otherDeposit : DepositEvent :=
  ⟨someHash, 7, "0x018f3a2b4c5d7e8f9a0b1c2d3e4f5a6c", none, 2000000000000000000⟩

theorem isHex_otherBytes16 : IsHex 16 otherDeposit.userBytes16 :=
  ⟨"018f3a2b4c5d7e8f9a0b1c2d3e4f5a6c".toList, by decide⟩

def twoInOne : Chain where
  logs := [etherDeposit, otherDeposit]
  hashes := List.forall_mem_cons.mpr ⟨isHex_someHash, List.forall_mem_singleton.mpr isHex_someHash⟩
  userIds := List.forall_mem_cons.mpr
    ⟨isHex_userBytes16, List.forall_mem_singleton.mpr isHex_otherBytes16⟩
  blocks := by decide

def otherCredit : DepositCredit :=
  ⟨someHash, "018f3a2b-4c5d-7e8f-9a0b-1c2d3e4f5a6c", .eth, 200000000⟩

theorem creditOf_otherDeposit : (twoInOne.logs.filter fun log => log.blockNumber ≤ 7 ∧
    creditOf noConfirmations.usdtTokenAddress log = some otherCredit).length = 1 := by
  decide +kernel

/-- The poll that finds both deposits. -/
def pollOfTwo : List (Event Action) := onePoll ++ List.replicate 2 ⟨0, .statement⟩

theorem pollOfTwo_executes :
    ((depositsSystem noConfirmations twoInOne).exec initial pollOfTwo).map
      (fun c => (c.procs 0, c.shared.inFlight, c.shared.lastScannedBlock,
        (c.shared.accounts.ledgerTransactions.filter fun t => otherCredit.Entry t).length)) =
      some (.idle, [], some 7, 0) := by
  decide +kernel

/-- No step fails, and the second of two deposits in one transaction is passed over: its
transaction has a row. -/
theorem not_settled_pollOfTwo : ¬∀ settings chain es c,
    (depositsSystem settings chain).exec initial es = some c → Quiescent c →
      Settled settings.usdtTokenAddress chain c.shared := by
  intro h
  obtain ⟨c, hexec, hresult⟩ := Option.map_eq_some_iff.mp pollOfTwo_executes
  simp only [Prod.mk.injEq] at hresult
  obtain ⟨hproc, hinFlight, hcursor, hledger⟩ := hresult
  have hidle : ∀ p, c.procs p = .idle := by
    intro p
    by_cases hp : p = 0
    · rw [hp, hproc]
    · exact System.exec_procs_of_le hexec (n := 1) (by decide) (Nat.pos_of_ne_zero hp)
  have hle := h noConfirmations twoInOne pollOfTwo c hexec ⟨hidle, hinFlight⟩ 7 hcursor otherCredit
  rw [creditOf_otherDeposit, hledger] at hle
  exact absurd hle (by decide)

end EtherTrade.DepositCoverageLaws
