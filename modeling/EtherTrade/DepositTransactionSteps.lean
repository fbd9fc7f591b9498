import EtherTrade.DepositTransactions

/-!
# What a step of the deposits system can do

The steps of polls, of `processDepositEvent` and of the rest of the world, each with what it
found on its way.
-/

namespace EtherTrade.DepositTransactionSteps

open KeyedRows AccountsSchema BalanceMutations BalancesService SequentialRequests DepositsSchema
open DepositTransactions InterleavedProcesses

variable {settings : Settings} {chain : Chain} {s s' : DepositsStore} {l l' : Process}
  {action : Action} {event : DepositEvent} {caller : Option Polling}

/-- The block a scan starts from: the one behind the cursor. -/
def NextBlock (s : DepositsStore) (fromBlock : ℕ) : Prop :=
  s.lastScannedBlock = none ∧ fromBlock = 0 ∨
    ∃ lastScanned, s.lastScannedBlock = some lastScanned ∧ fromBlock = lastScanned + 1

/-- What a step of a poll leads to. -/
inductive PollStep (settings : Settings) (chain : Chain) (s : DepositsStore) :
    Polling → DepositsStore → Process → Prop
  | failed {progress : Polling} : PollStep settings chain s progress s .idle
  | observed (currentBlock : ℕ) : PollStep settings chain s .begun
      { s with observed := s.observed ++ [currentBlock] } (.polling (.observed currentBlock))
  | resetting {currentBlock lastScanned : ℕ} (hcursor : s.lastScannedBlock = some lastScanned) :
      PollStep settings chain s (.observed currentBlock) s (.polling (.resetting currentBlock))
  | planned {currentBlock fromBlock : ℕ} {s' : DepositsStore} {l' : Process}
      (hfrom : NextBlock s fromBlock)
      (hscan : scanFrom settings s currentBlock fromBlock = (s', l')) :
      PollStep settings chain s (.observed currentBlock) s' l'
  | reset {currentBlock : ℕ} {s' : DepositsStore} {l' : Process}
      (hscan : scanFrom settings { s with lastScannedBlock := some 0 } currentBlock 1 = (s', l')) :
      PollStep settings chain s (.resetting currentBlock) s' l'
  | gotNatives {range : BlockRange} : PollStep settings chain s (.scanning range) s
      (.polling (.nativeLogs range (chain.nativeLogs range)))
  | tookNative {range : BlockRange} {log : DepositEvent} {rest : List DepositEvent} :
      PollStep settings chain s (.nativeLogs range (log :: rest)) s
        (.processing log .finding (some (.nativeLogs range rest)))
  | gotTokens {range : BlockRange} : PollStep settings chain s (.nativeLogs range []) s
      (.polling (.tokenLogs range (chain.tokenLogs range)))
  | tookToken {range : BlockRange} {log : DepositEvent} {rest : List DepositEvent} :
      PollStep settings chain s (.tokenLogs range (log :: rest)) s
        (.processing log .finding (some (.tokenLogs range rest)))
  | completed {range : BlockRange} : PollStep settings chain s (.tokenLogs range [])
      { s with scanned := s.scanned ++ [range] } (.polling (.scanned range.toBlock))
  | advanced {toBlock : ℕ} : PollStep settings chain s (.scanned toBlock)
      { s with lastScannedBlock := some toBlock } .idle

/-- What a step of `processDepositEvent` leads to. -/
inductive DepositStep (settings : Settings) (s : DepositsStore) (event : DepositEvent)
    (caller : Option Polling) : Processing → Action → DepositsStore → Process → Prop
  | failed {progress : Processing} {action : Action} :
      DepositStep settings s event caller progress action s .idle
  | known {existing : WalletDeposit} (hfind : findDepositByTxHash s event.txHash = some existing)
      (hstatus : existing.status ≠ .confirmed) :
      DepositStep settings s event caller .finding .statement s (resume caller)
  | retried {existing : WalletDeposit} (hfind : findDepositByTxHash s event.txHash = some existing)
      (hstatus : existing.status = .confirmed) :
      DepositStep settings s event caller .finding .statement s
        (.processing event (.crediting existing) caller)
  | undecodable {message : String} (hfind : findDepositByTxHash s event.txHash = none)
      (hnew : newDeposit settings.usdtTokenAddress event = .error message) :
      DepositStep settings s event caller .finding .statement s (resume caller)
  | prepared {deposit : NewWalletDeposit} (hfind : findDepositByTxHash s event.txHash = none)
      (hnew : newDeposit settings.usdtTokenAddress event = .ok deposit) :
      DepositStep settings s event caller .finding .statement s
        (.processing event (.inserting deposit) caller)
  | inserted {deposit : NewWalletDeposit} {newId : Uuid} {stored : DepositsStore}
      (hcreate : createDeposit s deposit newId = some stored) :
      DepositStep settings s event caller (.inserting deposit) (.insert newId) stored
        (if deposit.status = .confirmed then
          .processing event (.crediting { deposit with id := newId }) caller else resume caller)
  | insertedUnheard {deposit : NewWalletDeposit} {newId : Uuid} {stored : DepositsStore}
      (hcreate : createDeposit s deposit newId = some stored) :
      DepositStep settings s event caller (.inserting deposit) (.insertUnacknowledged newId)
        stored .idle
  | credited {deposit : WalletDeposit} {newId : Uuid} {accounts : AccountsDb} {account : Account}
      (hcredit : creditDepositFunds settings.isValidUuid newId
        (creditRequest deposit event.txHash) s.accounts = (accounts, .ok account)) :
      DepositStep settings s event caller (.crediting deposit) (.call (.answered newId))
        { s with accounts } (.processing event (.marking deposit) caller)
  | refused {deposit : WalletDeposit} {newId : Uuid} {accounts : AccountsDb}
      {failure : BalanceFailure} (hcredit : creditDepositFunds settings.isValidUuid newId
        (creditRequest deposit event.txHash) s.accounts = (accounts, .error failure)) :
      DepositStep settings s event caller (.crediting deposit) (.call (.answered newId))
        { s with accounts } (resume caller)
  | unanswered {deposit : WalletDeposit} :
      DepositStep settings s event caller (.crediting deposit) (.call .unanswered)
        { s with inFlight := s.inFlight ++ [creditRequest deposit event.txHash] } (resume caller)
  | marked {deposit : WalletDeposit} :
      DepositStep settings s event caller (.marking deposit) .statement
        (updateDepositStatus s deposit.id .credited) (resume caller)
  | unmarked {deposit : WalletDeposit} :
      DepositStep settings s event caller (.marking deposit) .abort s (resume caller)

/-- What a step of the system leads to. -/
inductive ProcessStep (settings : Settings) (chain : Chain) (s : DepositsStore) :
    Process → Action → DepositsStore → Process → Prop
  | started : ProcessStep settings chain s .idle .pollBlocks s (.polling .begun)
  | delivered {event : DepositEvent} (hlog : event ∈ chain.logs) :
      ProcessStep settings chain s .idle (.processDepositEvent event) s
        (.processing event .finding none)
  | poll {progress : Polling} {action : Action} {s' : DepositsStore} {l' : Process}
      (h : PollStep settings chain s progress s' l') :
      ProcessStep settings chain s (.polling progress) action s' l'
  | deposit {event : DepositEvent} {progress : Processing} {caller : Option Polling}
      {action : Action} {s' : DepositsStore} {l' : Process}
      (h : DepositStep settings s event caller progress action s' l') :
      ProcessStep settings chain s (.processing event progress caller) action s' l'
  | arrived {request : CreditDepositFundsRequest} {newId : Uuid} (hrequest : request ∈ s.inFlight) :
      ProcessStep settings chain s .idle (.arrive request newId) { s with
        accounts := (creditDepositFunds settings.isValidUuid newId request s.accounts).1
        inFlight := s.inFlight.erase request } .idle
  | accounts {request : Request} {accounts : AccountsDb} {answer : Option BalanceMutationStatus}
      (hforeign : Foreign request)
      (hstep : accountsMachine.step s.accounts request = some (accounts, answer)) :
      ProcessStep settings chain s .idle (.accounts request) { s with accounts } .idle

private theorem polling_cases {progress : Polling}
    (h : pollingStep settings chain s progress action = some (s', l')) :
    PollStep settings chain s progress s' l' := by
  unfold pollingStep at h
  split at h
  · cases h
    exact .observed _
  · split at h
    · next hcursor => exact .planned (Or.inl ⟨hcursor, rfl⟩) (Option.some.inj h)
    · next lastScanned hcursor =>
      split at h
      · cases h
        exact .resetting hcursor
      · exact .planned (Or.inr ⟨lastScanned, hcursor, rfl⟩) (Option.some.inj h)
  · exact .reset (Option.some.inj h)
  · cases h
    exact .gotNatives
  · cases h
    exact .tookNative
  · cases h
    exact .gotTokens
  · cases h
    exact .tookToken
  · cases h
    exact .completed
  · cases h
    exact .advanced
  · cases h
    exact .failed
  · cases h

private theorem processing_cases {progress : Processing}
    (h : processingStep settings s event caller progress action = some (s', l')) :
    DepositStep settings s event caller progress action s' l' := by
  unfold processingStep at h
  split at h
  · split at h
    · next hfind =>
      split at h <;> cases h
      · next hstatus => exact .retried hfind hstatus
      · next hstatus => exact .known hfind hstatus
    · next hfind =>
      split at h <;> cases h
      · next hnew => exact .undecodable hfind hnew
      · next hnew => exact .prepared hfind hnew
  · split at h
    · cases h
      exact .failed
    · next hcreate =>
      have hstep := @DepositStep.inserted settings s event caller _ _ _ hcreate
      split at h
      · next hstatus =>
        cases h
        rwa [if_pos hstatus] at hstep
      · next hstatus =>
        cases h
        rwa [if_neg hstatus] at hstep
  · obtain ⟨stored, hcreate, heq⟩ := Option.map_eq_some_iff.mp h
    cases heq
    exact .insertedUnheard hcreate
  · split at h
    · next hcredit =>
      cases h
      exact .credited hcredit
    · next hcredit =>
      cases h
      exact .refused hcredit
  · cases h
    exact .unanswered
  · cases h
    exact .marked
  · cases h
    exact .unmarked
  · cases h
    exact .failed
  · cases h
    exact .failed
  · cases h

private theorem idle_cases (h : idleStep settings chain s action = some (s', l')) :
    ProcessStep settings chain s .idle action s' l' := by
  unfold idleStep at h
  split at h
  · cases h
    exact .started
  · split at h <;> cases h
    next hlog => exact .delivered hlog
  · split at h <;> cases h
    next hrequest => exact .arrived hrequest
  · split at h
    · next hforeign =>
      obtain ⟨⟨accounts, answer⟩, hstep, heq⟩ := Option.map_eq_some_iff.mp h
      cases heq
      exact .accounts hforeign hstep
    · cases h
  · cases h

theorem step_cases {p : ℕ} (h : step settings chain p s l action = some (s', l')) :
    ProcessStep settings chain s l action s' l' := by
  unfold step at h
  split at h
  · exact idle_cases h
  · exact .poll (polling_cases h)
  · exact .deposit (processing_cases h)

theorem next_cases {c d : DepositsConfig} {e : Event Action}
    (h : (depositsSystem settings chain).next c e = some d) :
    ∃ s' l', ProcessStep settings chain c.shared (c.procs e.proc) e.action s' l' ∧
      d = ⟨s', Function.update c.procs e.proc l'⟩ := by
  obtain ⟨s', l', hs, rfl⟩ := System.next_eq_some.mp h
  exact ⟨s', l', @step_cases _ _ _ _ _ _ _ e.proc hs, rfl⟩

theorem scanFrom_cases (settings : Settings) (s : DepositsStore) (currentBlock fromBlock : ℕ) :
    scanFrom settings s currentBlock fromBlock = (s, .idle) ∨
      ∃ range : BlockRange, range.fromBlock = fromBlock ∧
        range.toBlock ≤ currentBlock - settings.confirmations ∧
          scanFrom settings s currentBlock fromBlock =
            ({ s with scans := s.scans ++ [range] }, .polling (.scanning range)) := by
  unfold scanFrom
  dsimp only
  split
  · exact Or.inr ⟨_, rfl, Nat.min_le_right _ _, rfl⟩
  · exact Or.inl rfl

end EtherTrade.DepositTransactionSteps
