import EtherTrade.WithdrawalRecovery

/-!
# The ledger entries of a withdrawal

The debit of a completed withdrawal and the unlock of a failed one, told apart by their
type, their key and the withdrawal they refer to. Only the withdrawal's own calls write them.
-/

namespace EtherTrade.WithdrawalEntries

open KeyedRows AccountsSchema AccountsDbInvariants BalanceMutations BalanceMutationCorrectness
open SequentialRequests IdempotencyKeyIsolation WithdrawalsSchema WithdrawalTransactions
open WithdrawalTransactionSteps WithdrawalTransactionInvariants WithdrawalRecovery
open InterleavedProcesses

variable {s s' : TransfersStore} {l l' : Process} {action : Action} {call made : BalanceCall}
  {row : WithdrawalRequest} {t : LedgerTransaction}

/-- The entry is of the type, under the key and with the reference of the call. -/
def Records (call : BalanceCall) (t : LedgerTransaction) : Prop :=
  t.type = call.operation.mutation.expectedType ∧ t.idempotencyKey = some call.idempotencyKey ∧
    t.referenceId = some call.referenceId

instance (call : BalanceCall) (t : LedgerTransaction) : Decidable (Records call t) :=
  inferInstanceAs (Decidable (_ ∧ _ ∧ _))

theorem records_of_entry (h : Entry call t) : Records call t := by
  refine ⟨h.type, h.key, ?_⟩
  obtain ⟨account, rfl⟩ := h
  cases call <;> rfl

/-- The ledger has an entry of the call, for its user and amount. -/
def Performed (s : TransfersStore) (call : BalanceCall) : Prop :=
  ∃ t ∈ s.accounts.ledgerTransactions, Records call t ∧ t.userId = call.terms.userId ∧
    t.currency = call.terms.currency ∧ t.amount = call.terms.amount.units

/-- The ledger has exactly one entry of the call; it is of the call's amount and on the
account of the call's user. -/
def PerformedOnce (s : TransfersStore) (call : BalanceCall) : Prop :=
  ∃ t, s.accounts.ledgerTransactions.filter (fun t => Records call t) = [t] ∧
    t.amount = call.terms.amount.units ∧
    ∃ account, s.accounts.findById t.accountId = some account ∧
      account.owner = (call.terms.userId, call.terms.currency)

theorem performed_of_entry (h : Entry call t) (ht : t ∈ s.accounts.ledgerTransactions) :
    Performed s call :=
  ⟨t, ht, records_of_entry h, h.userId, h.currency, h.amount⟩

theorem Performed.once (h : Performed s call) (hdb : WellFormed s.accounts) :
    PerformedOnce s call := by
  obtain ⟨t, ht, hrecords, huser, hcurrency, hamount⟩ := h
  obtain ⟨account, hfind, howner⟩ := hdb.ledgerOwners t ht
  exact ⟨t, hdb.filter_eq_singleton ht hrecords fun u _ hu => hu.2.1, hamount, account, hfind,
    by rw [howner, huser, hcurrency]⟩

theorem Performed.step (h : Performed s call) (hdb : WellFormed s.accounts)
    (hstep : ProcessStep s l action s' l') : Performed s' call := by
  obtain ⟨t, ht, hrecords⟩ := h
  exact ⟨t, ledger_persists hdb hstep ht, hrecords⟩

theorem mem_perform (hdb : WellFormed s.accounts) (ht : t ∈ s.accounts.ledgerTransactions) :
    t ∈ (perform s call).accounts.ledgerTransactions := by
  rcases run_cases call hdb with ⟨-, hsame⟩ | ⟨-, -, -, u, -, hledger⟩
  · rwa [perform, hsame]
  · rw [perform, hledger]
    exact List.mem_append_left _ ht

/-- A call that takes effect has its entry in the ledger. -/
theorem performed_of_takesEffect (hdb : WellFormed s.accounts)
    (h : call.takesEffect s.accounts = true) : Performed (perform s call) call := by
  rcases run_cases call hdb with ⟨hnone, -⟩ | ⟨-, -, -, t, hentry, hledger⟩
  · rw [h] at hnone
    cases hnone
  · refine performed_of_entry hentry ?_
    rw [perform, hledger]
    exact List.mem_append_right _ (List.mem_singleton_self t)

/-- Two calls of one kind for one withdrawal are the same. -/
theorem Performed.congr (h : Performed s call) (hop : made.operation = call.operation)
    (hkey : made.idempotencyKey = call.idempotencyKey)
    (hreference : made.referenceId = call.referenceId) (hterms : made.terms = call.terms) :
    Performed s made := by
  obtain ⟨t, ht, ⟨htype, htkey, htreference⟩, hdata⟩ := h
  exact ⟨t, ht, ⟨hop ▸ htype, hkey ▸ htkey, hreference ▸ htreference⟩, hterms ▸ hdata⟩

/-! ### Where entries come from -/

/-- A new entry under a key of a withdrawal is that of a call which takes effect, when it is
an unlock or a debit. -/
theorem entry_step (hdb : WellFormed s.accounts) (hallowed : Undebited action)
    (h : ProcessStep s l action s' l') (ht : t ∈ s'.accounts.ledgerTransactions)
    (htype : t.type = .unlock ∨ t.type = .withdrawal) {key : String}
    (hkey : t.idempotencyKey = some key) (hwithdrawal : IsWithdrawalKey key) :
    t ∈ s.accounts.ledgerTransactions ∨ ∃ made, Effective s l action made ∧ Entry made t := by
  have hperform (call : BalanceCall) (heffective : call.takesEffect s.accounts = true →
      Effective s l action call) (ht : t ∈ (perform s call).accounts.ledgerTransactions) :
      t ∈ s.accounts.ledgerTransactions ∨ ∃ made, Effective s l action made ∧ Entry made t := by
    rcases run_cases call hdb with ⟨-, hsame⟩ | ⟨heffect, -, -, u, hentry, hledger⟩
    · rw [perform, hsame] at ht
      exact Or.inl ht
    · rw [perform, hledger] at ht
      refine (List.mem_append.mp ht).imp_right fun hnew => ⟨call, heffective heffect, ?_⟩
      rw [List.mem_singleton.mp hnew]
      exact hentry
  cases h with
  | answered hcall => exact hperform _ (fun heffect => ⟨heffect, Or.inl ⟨rfl, hcall⟩⟩) ht
  | arrived hcall => exact hperform _ (fun heffect => ⟨heffect, Or.inr ⟨rfl, hcall⟩⟩) ht
  | accounts hforeign hstep =>
    obtain ⟨-, ts, hledger, hts⟩ := accountsMachine_ledger hdb hstep
    rw [hledger] at ht
    rcases List.mem_append.mp ht with ht | ht
    · exact Or.inl ht
    · obtain ⟨op, newId, params, account, rfl, -, rfl⟩ := hts t ht key hkey
      cases hkey
      rcases htype with htype | htype
      · have hop : op = .unlock := expectedType_injective htype
        exact absurd hwithdrawal (hforeign (Or.inr hop))
      · have hop : op = .debitWithdrawal := expectedType_injective htype
        exact absurd hop hallowed
  | _ => exact Or.inl ht

/-- An entry of a debit is that of a debit of the same withdrawal which takes effect. -/
theorem debit_step (hdb : WellFormed s.accounts) (hallowed : Undebited action)
    (h : ProcessStep s l action s' l') (ht : t ∈ s'.accounts.ledgerTransactions)
    (htype : t.type = .withdrawal) {id : Uuid}
    (hkey : t.idempotencyKey = some (debitPrefix ++ id)) : t ∈ s.accounts.ledgerTransactions ∨
      ∃ made, Effective s l action (.debit made) ∧ Entry (.debit made) t ∧ made.id = id := by
  rcases entry_step hdb hallowed h ht (Or.inr htype) hkey
    (isWithdrawalKey_append (by decide) _) with hold | ⟨made, heffective, hentry⟩
  · exact Or.inl hold
  · have hop : made.operation = .debitWithdrawal :=
      expectedType_injective (hentry.type.symm.trans htype)
    cases made with
    | debit made =>
      exact Or.inr ⟨made, heffective, hentry,
        append_injective (Option.some.inj (hentry.key.symm.trans hkey))⟩
    | _ => cases hop

/-- An entry of a refund is that of a refund of the same withdrawal which takes effect. -/
theorem refund_step (hdb : WellFormed s.accounts) (hallowed : Undebited action)
    (h : ProcessStep s l action s' l') (ht : t ∈ s'.accounts.ledgerTransactions)
    (hrecords : Records (.refund row) t) : t ∈ s.accounts.ledgerTransactions ∨
      ∃ made, Effective s l action (.refund made) ∧ Entry (.refund made) t ∧
        made.id = row.id := by
  have hkey : IsWithdrawalKey (BalanceCall.refund row).idempotencyKey :=
    isWithdrawalKey_append (by decide) _
  rcases entry_step hdb hallowed h ht (Or.inl hrecords.1) hrecords.2.1 hkey with
    hold | ⟨made, heffective, hentry⟩
  · exact Or.inl hold
  · have hop : made.operation = .unlock :=
      expectedType_injective (hentry.type.symm.trans hrecords.1)
    cases made with
    | refund made =>
      have hreference := (records_of_entry hentry).2.2.symm.trans hrecords.2.2
      exact Or.inr ⟨made, heffective, hentry, Option.some.inj hreference⟩
    | compensate terms =>
      exact absurd (Option.some.inj (hentry.key.symm.trans hrecords.2.1))
        (compensationPrefix_ne_refundPrefix _ _)
    | _ => cases hop

end EtherTrade.WithdrawalEntries
