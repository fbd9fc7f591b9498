import Mathlib.Algebra.Order.BigOperators.Group.List
import Mathlib.Tactic.Ring
import EtherTrade.AccountsDeadlockLaws
import EtherTrade.AccountsTransactionRuns
import EtherTrade.ProcessSums
import EtherTrade.SequentialRequests

/-!
# Concurrent first credits of an account

Any number of deposits and deposit credits of one user in one currency, who has no
account in it yet, interleaved in any way and without failures. The first insert opens
the account. An insert that finds it opened is refused, and its transaction is aborted;
without such an insert every call returns and its amount is in the balance.
-/

namespace EtherTrade.FirstCreditLaws

open KeyedRows AccountsSchema AccountsDbInvariants BalanceMutations BalanceMutationCorrectness
open TradeSettlement InterleavedProcesses ResourceLocks LockOrders AccountsTransactions
open AccountsTransactionInvariants AccountsTransactionSteps AccountsTransactionRuns
open AccountsDeadlockLaws SequentialRequests ProcessSums

/-- A call of `deposit` or `creditDeposit`. -/
structure Credit where
  op : BalanceOperation
  params : BalanceParams
  opensAccount : op.mutation.opensAccount = true

variable {userId : Uuid} {currency : Currency} {db : AccountsDb} {credits : List Credit}
  {x y : Credit} {p q : ℕ} {s s' : Shared} {action : Action} {progress progress' : CallProgress}
  {c d : AccountsConfig} {e : Event Action} {es : List (Event Action)}

/-- First credits of one user in one currency, each under a key of its own. -/
structure FirstCredits (userId : Uuid) (currency : Currency) (db : AccountsDb)
    (credits : List Credit) : Prop where
  wellFormed : WellFormed db
  missing : db.findByUserAndCurrency userId currency = none
  nonempty : credits ≠ []
  owner : ∀ x ∈ credits, x.params.userId = userId ∧ x.params.currency = currency
  keys : (credits.map fun x => x.params.idempotencyKey).Nodup
  unused : ∀ x ∈ credits, db.findLedgerByIdempotencyKey x.params.idempotencyKey = none

/-- Every call has begun. -/
def started (db : AccountsDb) (credits : List Credit) : AccountsConfig :=
  ⟨⟨db, LockTable.free⟩, fun p => match credits[p]? with
    | some x => .calling x.op x.params .begun
    | none => .idle⟩

/-- The id of the account that an action inserts. -/
def insertedId : Action → Option Uuid
  | .insertAccount newId => some newId
  | _ => none

/-- Only the calls take steps, none of them fails, and generated ids are not in use. -/
def Proceeds (credits : List Credit) (c : AccountsConfig) (e : Event Action) : Prop :=
  e.proc < credits.length ∧ e.action ≠ .abort ∧
    ∀ newId ∈ insertedId e.action, c.shared.store.findById newId = none

instance : Decidable (Proceeds credits c e) := inferInstanceAs (Decidable (_ ∧ _ ∧ _))

/-- No call can take a step. -/
def Finished (credits : List Credit) (c : AccountsConfig) : Prop :=
  ∀ p < credits.length, ∀ action, action ≠ .abort → step p c.shared (c.procs p) action = none

/-- Every call has returned success, and the one account of the user and currency holds the
sum of the amounts. -/
structure Credited (userId : Uuid) (currency : Currency) (credits : List Credit)
    (c : AccountsConfig) : Prop where
  returned : ∀ p x, credits[p]? = some x →
    ∃ account, c.procs p = .calling x.op x.params (.returned (.ok account))
  account : ∃ account,
    c.shared.store.accounts.filter (fun a => a.owner = (userId, currency)) = [account] ∧
      account.availableBalance = (credits.map fun x => x.params.amount.units).sum

/-- An insert that finds no account of the user and currency. -/
def InsertsFirst (userId : Uuid) (currency : Currency) (c : AccountsConfig) (e : Event Action) :
    Prop :=
  (insertedId e.action).isSome → c.shared.store.findByUserAndCurrency userId currency = none

instance : Decidable (InsertsFirst userId currency c e) := inferInstanceAs (Decidable (_ → _))

/-! ### Steps -/

/-- The points of a credit under way whose key is unused. -/
def UnderWay : CallProgress → Prop
  | .begun => True
  | .checked => True
  | .missing => True
  | .held _ _ => True
  | .updated _ _ => True
  | .written _ _ => True
  | _ => False

theorem op_eq (x : Credit) : x.op = .deposit ∨ x.op = .creditDeposit := by
  obtain ⟨op, params, hopens⟩ := x
  cases op with
  | deposit => exact Or.inl rfl
  | creditDeposit => exact Or.inr rfl
  | lock => cases hopens
  | unlock => cases hopens
  | debitWithdrawal => cases hopens

theorem refusal_eq_none (x : Credit) (account : Account) :
    x.op.mutation.refusal account x.params.amount = none := by
  rcases op_eq x with hop | hop <;> rw [hop] <;> rfl

theorem credit_change (x : Credit) : x.op.mutation.change x.params.amount =
    (x.params.amount.units, 0) := by
  rcases op_eq x with hop | hop <;> rw [hop] <;> rfl

theorem creditStep_cases (hprogress : UnderWay progress)
    (hkey : s.store.findLedgerByIdempotencyKey x.params.idempotencyKey = none)
    (haction : action ≠ .abort)
    (h : callStep p s x.op.mutation x.params progress action = some (s', progress')) :
    (UnderWay progress' ∧ s'.store = s.store ∧ ∀ newId, action = .insertAccount newId →
        accountConflict s.store (.zero newId x.params.userId x.params.currency) = false) ∨
      (∃ newId, action = .insertAccount newId ∧ progress' = .failed ∧ s'.store = s.store ∧
        accountConflict s.store (.zero newId x.params.userId x.params.currency) = true) ∨
      ∃ account opened, action = .statement ∧ progress = .written account opened ∧
        progress' = .returned (.ok (x.op.mutation.updatedAccount x.params account)) := by
  have heffect := callStep_effect h
  cases heffect with
  | aborted => exact absurd rfl haction
  | unused hcheck => exact Or.inl ⟨trivial, rfl, nofun⟩
  | mismatched =>
    simp only [callStep, (checkReplay_eq_unused _).mpr hkey] at h
    cases h
  | replaying hcheck => cases ((checkReplay_eq_unused _).mpr hkey).symm.trans hcheck
  | replayed => exact hprogress.elim
  | absent =>
    rw [if_pos x.opensAccount]
    exact Or.inl ⟨trivial, rfl, nofun⟩
  | found hfound havailable => exact Or.inl ⟨trivial, rfl, nofun⟩
  | @conflicted newId hconflict => exact Or.inr (Or.inl ⟨newId, rfl, rfl, rfl, hconflict⟩)
  | opened hcan hnew =>
    refine Or.inl ⟨trivial, rfl, fun newId' hinsert => ?_⟩
    obtain rfl := Action.insertAccount.inj hinsert
    exact hnew
  | refused hrefused => cases (refusal_eq_none x _).symm.trans hrefused
  | updated hpassed => exact Or.inl ⟨trivial, rfl, nofun⟩
  | keyUsed hused =>
    rw [hkey] at hused
    cases hused
  | written havailable hunused => exact Or.inl ⟨trivial, rfl, nofun⟩
  | @committed account opened => exact Or.inr (Or.inr ⟨account, opened, rfl, rfl, rfl⟩)
  | returned => exact hprogress.elim

/-! ### Runs -/

/-- What a call has added to the balance. -/
def paid : Process → ℤ
  | .calling _ params (.returned (.ok _)) => params.amount.units
  | _ => 0

/-- How far a credit is: under way with its key unused, refused, or done. -/
def Stands (store : AccountsDb) (x : Credit) (l : Process) : Prop :=
  ∃ progress, l = .calling x.op x.params progress ∧
    (UnderWay progress ∧ store.findLedgerByIdempotencyKey x.params.idempotencyKey = none ∨
      progress = .failed ∨ ∃ account, progress = .returned (.ok account))

/-- The account holds what the calls have added. -/
structure Crediting (userId : Uuid) (currency : Currency) (credits : List Credit)
    (c : AccountsConfig) : Prop where
  accounts : AccountsInvariant (fun _ => True) c
  locks : LocksInOrder c
  idle : ∀ p, credits[p]? = none → c.procs p = .idle
  calls : ∀ p x, credits[p]? = some x → Stands c.shared.store x (c.procs p)
  balances : (accountBalances c.shared.store userId currency).getD 0 =
    (∑ p ∈ Finset.range credits.length, paid (c.procs p), 0)

theorem crediting_started (h : FirstCredits userId currency db credits) :
    Crediting userId currency credits (started db credits) where
  accounts := by
    refine ⟨h.wellFormed, fun p => ?_⟩
    simp only [started]
    split <;> trivial
  locks := by
    intro p
    refine ⟨fun r hr => ?_, ?_⟩
    · cases hr
    · simp only [started]
      split <;> trivial
  idle p hp := by simp [started, hp]
  calls p x hp := by
    have hx : x ∈ credits := List.mem_of_getElem? hp
    exact ⟨.begun, by simp [started, hp], Or.inl ⟨trivial, h.unused x hx⟩⟩
  balances := by
    have hpaid : ∀ p, paid ((started db credits).procs p) = 0 := by
      intro p
      simp only [started]
      split <;> rfl
    simp only [hpaid, Finset.sum_const_zero]
    simp only [accountBalances, started, h.missing]
    rfl

/-- What a step of a credit leads to: nothing is committed, or the insert is refused, or the
amount is added. -/
inductive CreditStep (x : Credit) (store : AccountsDb) (action : Action) :
    Process → AccountsDb → Prop
  | quiet {progress : CallProgress} (hprogress : UnderWay progress)
      (hinsert : ∀ newId, action = .insertAccount newId →
        accountConflict store (.zero newId x.params.userId x.params.currency) = false) :
      CreditStep x store action (.calling x.op x.params progress) store
  | refused {newId : Uuid} (haction : action = .insertAccount newId)
      (hconflict : accountConflict store (.zero newId x.params.userId x.params.currency) = true) :
      CreditStep x store action (.calling x.op x.params .failed) store
  | added {account : Account} {prepared : AccountsDb} (haction : action = .statement)
      (hprepared : Prepared x.op.mutation x.params store account prepared) :
      CreditStep x store action
        (.calling x.op x.params (.returned (.ok (x.op.mutation.updatedAccount x.params account))))
        (x.op.mutation.commit x.params account prepared)

theorem next_cases (hc : Crediting userId currency credits c) (hproceeds : Proceeds credits c e)
    (h : accountsSystem.next c e = some d) : ∃ x store locks l', credits[e.proc]? = some x ∧
      c.shared.store.findLedgerByIdempotencyKey x.params.idempotencyKey = none ∧
      paid (c.procs e.proc) = 0 ∧ d = ⟨⟨store, locks⟩, Function.update c.procs e.proc l'⟩ ∧
      CreditStep x c.shared.store e.action l' store := by
  obtain ⟨hproc, haction, -⟩ := hproceeds
  obtain ⟨x, hx⟩ : ∃ x, credits[e.proc]? = some x := ⟨_, List.getElem?_eq_getElem hproc⟩
  have heffect := effect_next hc.accounts (fun _ _ _ _ _ => trivial) h
  obtain ⟨progress, hbefore, hstands⟩ := hc.calls _ _ hx
  obtain ⟨s', l', hs, rfl⟩ := System.next_eq_some.mp h
  change step e.proc c.shared (c.procs e.proc) e.action = some (s', l') at hs
  change Effect _ c.shared (c.procs e.proc) (Function.update c.procs e.proc l' e.proc) s'.store
    at heffect
  rw [Function.update_self, hbefore] at heffect
  rw [hbefore] at hs ⊢
  simp only [step, Option.map_eq_some_iff, Prod.mk.injEq] at hs
  obtain ⟨⟨s₁, progress'⟩, hstep, rfl, rfl⟩ := hs
  rcases hstands with ⟨hprogress, hkey⟩ | rfl | ⟨account, rfl⟩
  · have hpaid : paid (.calling x.op x.params progress) = 0 := by
      cases progress <;> first | rfl | cases hprogress
    refine ⟨x, s₁.store, s₁.locks, _, hx, hkey, hpaid, rfl, ?_⟩
    rcases creditStep_cases hprogress hkey haction hstep with
      ⟨hprogress', hstore, hinsert⟩ | ⟨newId, hinsert, rfl, hstore, hconflict⟩ |
        ⟨account, opened, haction', rfl, rfl⟩
    · rw [hstore]
      exact .quiet hprogress' hinsert
    · rw [hstore]
      exact .refused hinsert hconflict
    · change Effect _ _ _ _ s₁.store at heffect
      generalize s₁.store = store at heffect ⊢
      cases heffect with
      | unchanged hcall => exact absurd rfl (hcall _ _ _)
      | mutated hkey hprepared => exact .added haction' hprepared
  · cases haction' : e.action <;> rw [haction'] at hstep <;> cases hstep
  · cases haction' : e.action <;> rw [haction'] at hstep <;> cases hstep

theorem FirstCredits.index_eq (h : FirstCredits userId currency db credits)
    (hp : credits[p]? = some x) (hq : credits[q]? = some y)
    (hkey : x.params.idempotencyKey = y.params.idempotencyKey) : p = q := by
  obtain ⟨hp, rfl⟩ := List.getElem?_eq_some_iff.mp hp
  obtain ⟨hq, rfl⟩ := List.getElem?_eq_some_iff.mp hq
  have hp' : p < (credits.map fun x => x.params.idempotencyKey).length := by rwa [List.length_map]
  have hq' : q < (credits.map fun x => x.params.idempotencyKey).length := by rwa [List.length_map]
  refine (@List.Nodup.getElem_inj_iff _ _ h.keys p hp' q hq').mp ?_
  rw [List.getElem_map, List.getElem_map]
  exact hkey

theorem crediting_next (h : FirstCredits userId currency db credits)
    (hc : Crediting userId currency credits c) (hproceeds : Proceeds credits c e)
    (hnext : accountsSystem.next c e = some d) : Crediting userId currency credits d := by
  have haccounts := accountsInvariant_next hc.accounts (fun _ _ _ _ _ => trivial) hnext
  have hlocks := locksInOrder_next hc.locks hnext
  obtain ⟨x, store, locks, l', hx, hkey, hpaid, rfl, hstep⟩ := next_cases hc hproceeds hnext
  have hidle (q : ℕ) (hq : credits[q]? = none) :
      Function.update c.procs e.proc l' q = .idle := by
    have hne : q ≠ e.proc := by
      rintro rfl
      rw [hq] at hx
      cases hx
    rw [Function.update_of_ne hne]
    exact hc.idle q hq
  -- another call keeps its place when its key stays unused
  have hcalls (hown : Stands store x l')
      (hothers : ∀ key, key ≠ x.params.idempotencyKey →
        store.findLedgerByIdempotencyKey key = c.shared.store.findLedgerByIdempotencyKey key)
      (q : ℕ) (y : Credit) (hq : credits[q]? = some y) :
      Stands store y (Function.update c.procs e.proc l' q) := by
    by_cases hqe : q = e.proc
    · subst hqe
      obtain rfl := Option.some.inj (hx.symm.trans hq)
      rwa [Function.update_self]
    · rw [Function.update_of_ne hqe]
      obtain ⟨progress, hproc, hstands⟩ := hc.calls q y hq
      refine ⟨progress, hproc, hstands.imp_left fun ⟨hprogress, hunused⟩ => ⟨hprogress, ?_⟩⟩
      rw [hothers _ fun hsame => hqe (h.index_eq hq hx hsame), hunused]
  have hsum := sum_range_update paid c.procs hproceeds.1 l'
  rw [hpaid, sub_zero] at hsum
  cases hstep with
  | @quiet progress hprogress =>
    have hunpaid : paid (.calling x.op x.params progress) = 0 := by
      cases progress <;> first | rfl | cases hprogress
    refine ⟨haccounts, hlocks, hidle,
      hcalls ⟨progress, rfl, Or.inl ⟨hprogress, hkey⟩⟩ fun _ _ => rfl, ?_⟩
    rw [hsum, hunpaid, add_zero]
    exact hc.balances
  | refused =>
    refine ⟨haccounts, hlocks, hidle,
      hcalls ⟨.failed, rfl, Or.inr (Or.inl rfl)⟩ fun _ _ => rfl, ?_⟩
    rw [hsum]
    simpa [paid] using hc.balances
  | @added account prepared haction hprepared =>
    refine ⟨haccounts, hlocks, hidle,
      hcalls ⟨_, rfl, Or.inr (Or.inr ⟨_, rfl⟩)⟩ fun key hne => ?_, ?_⟩
    · rw [findLedger_commit, hprepared.findLedger_eq, if_neg (Ne.symm hne), Option.or_none]
    · have howner : (x.params.userId, x.params.currency) = (userId, currency) :=
        Prod.ext_iff.mpr (h.owner x (List.mem_of_getElem? hx))
      rw [accountBalances_commit hc.accounts.wellFormed hprepared, if_pos howner, Option.getD_some,
        hc.balances, hsum, credit_change]
      simp [paid]

theorem crediting_run (h : FirstCredits userId currency db credits)
    (hrun : accountsSystem.Run (Proceeds credits) (started db credits) es d) :
    Crediting userId currency credits d :=
  hrun.invariant (crediting_started h) fun _ _ _ hc hproceeds hnext =>
    crediting_next h hc hproceeds hnext

/-! ### Refused inserts -/

theorem accountConflict_of_found {newId : Uuid}
    (h : (db.findByUserAndCurrency userId currency).isSome = true) :
    accountConflict db (.zero newId userId currency) = true := by
  simp [accountConflict, Account.zero, h]

theorem exists_newId (h : (insertedId action).isSome) : ∃ newId, action = .insertAccount newId := by
  cases action with
  | insertAccount newId => exact ⟨newId, rfl⟩
  | _ => cases h

/-- After an insert that finds the account opened, the call has failed for good. -/
theorem failed_of_transition (h : FirstCredits userId currency db credits)
    (hrun : accountsSystem.Run (Proceeds credits) (started db credits) es d)
    {t : System.Transition Shared Process Action}
    (ht : t ∈ accountsSystem.transitions (started db credits) es)
    (hlate : ¬InsertsFirst userId currency t.before t.event) :
    ∃ p x, credits[p]? = some x ∧ d.procs p = .calling x.op x.params .failed := by
  obtain ⟨hc, hproceeds, hnext⟩ := hrun.transitions_invariant (crediting_started h)
    (fun _ _ _ hc hproceeds hnext => crediting_next h hc hproceeds hnext) t ht
  obtain ⟨earlier, later, -, -, -, hlater⟩ := System.exec_transition hrun.executes ht
  simp only [InsertsFirst, Classical.not_imp] at hlate
  obtain ⟨hinserts, hfound⟩ := hlate
  obtain ⟨newId, hinsert⟩ := exists_newId hinserts
  obtain ⟨x, store, locks, l', hx, -, -, hafter, hstep⟩ := next_cases hc hproceeds hnext
  obtain ⟨rfl, rfl⟩ := h.owner x (List.mem_of_getElem? hx)
  have hconflict := @accountConflict_of_found _ _ _ newId (Option.ne_none_iff_isSome.mp hfound)
  have hfailed : t.after.procs t.event.proc = .calling x.op x.params .failed := by
    rw [hafter]
    refine (Function.update_self ..).trans ?_
    cases hstep with
    | quiet _ hfree => exact absurd (hconflict.symm.trans (hfree newId hinsert)) (by simp)
    | refused => rfl
    | added haction => cases hinsert.symm.trans haction
  refine ⟨t.event.proc, x, hx, ?_⟩
  rw [← hfailed]
  refine System.exec_procs_of_final hlater fun s action => ?_
  rw [hfailed]
  cases action <;> rfl

/-- Without such an insert no call fails. -/
theorem not_failed (h : FirstCredits userId currency db credits)
    (hrun : accountsSystem.Run (Proceeds credits) (started db credits) es d)
    (hfirst : ∀ t ∈ accountsSystem.transitions (started db credits) es,
      InsertsFirst userId currency t.before t.event) {x : Credit} :
    d.procs p ≠ .calling x.op x.params .failed := by
  have hinvariant := (hrun.strengthen hfirst).invariant
    (I := fun c => Crediting userId currency credits c ∧
      ∀ p (x : Credit), c.procs p ≠ .calling x.op x.params .failed)
    ⟨crediting_started h, fun p x => by simp only [started]; split <;> simp⟩ ?_
  · exact hinvariant.2 p x
  · rintro c e d ⟨hc, hnone⟩ ⟨hproceeds, hinserts⟩ hnext
    refine ⟨crediting_next h hc hproceeds hnext, fun q y => ?_⟩
    obtain ⟨x, store, locks, l', hx, -, -, rfl, hstep⟩ := next_cases hc hproceeds hnext
    change Function.update c.procs e.proc l' q ≠ _
    by_cases hq : q = e.proc
    · subst hq
      rw [Function.update_self]
      cases hstep with
      | @quiet progress hprogress =>
        intro heq
        obtain ⟨-, -, rfl⟩ := Process.calling.inj heq
        exact hprogress
      | @refused newId haction hconflict =>
        obtain ⟨rfl, rfl⟩ := h.owner x (List.mem_of_getElem? hx)
        have hid : insertedId e.action = some newId := by rw [haction]; rfl
        simp [accountConflict, Account.zero, hinserts (hid ▸ rfl),
          hproceeds.2.2 newId hid] at hconflict
      | added => simp
    · rw [Function.update_of_ne hq]
      exact hnone q y

/-! ### The end of a run -/

/-- A credit under way has a next action. -/
theorem exists_action (x : Credit) (hprogress : UnderWay progress) : ∃ action, action ≠ .abort ∧
    step p ⟨db, LockTable.free⟩ (.calling x.op x.params progress) action ≠ none := by
  cases progress with
  | missing =>
    refine ⟨.insertAccount "", by simp, ?_⟩
    have hfree : CanInsertAccount p ⟨db, LockTable.free⟩
        (.zero "" x.params.userId x.params.currency) :=
      ⟨LockTable.available_free .., LockTable.available_free ..⟩
    simp only [step, callStep, if_pos hfree]
    split <;> simp
  | begun =>
    refine ⟨.statement, by simp, ?_⟩
    simp only [step, callStep]
    split <;> simp
  | checked =>
    refine ⟨.statement, by simp, ?_⟩
    simp only [step, callStep, LockTable.available_free, if_true]
    split <;> simp
  | held account opened =>
    refine ⟨.statement, by simp, ?_⟩
    simp only [step, callStep]
    split <;> simp
  | updated account opened =>
    refine ⟨.statement, by simp, ?_⟩
    simp only [step, callStep, LockTable.available_free, if_true]
    split <;> simp
  | written account opened => exact ⟨.statement, by simp, by simp [step, callStep]⟩
  | _ => cases hprogress

/-- No two calls block each other: at the end of a run every call has ended. -/
theorem ended_of_finished (hc : Crediting userId currency credits c)
    (hfinished : Finished credits c) (hx : credits[p]? = some x) :
    c.procs p = .calling x.op x.params .failed ∨
      ∃ account, c.procs p = .calling x.op x.params (.returned (.ok account)) := by
  classical
  let pending : Finset ℕ := (Finset.range credits.length).filter fun q =>
    ∃ y progress, c.procs q = .calling y.op y.params progress ∧ UnderWay progress ∧
      credits[q]? = some y
  have hclosed : ∀ q ∈ pending, ∀ r, Waits c q r → r ∈ pending := by
    rintro q - r ⟨-, resource, -, hheld⟩
    have hholds := (hc.locks r).holds resource hheld
    cases hr : credits[r]? with
    | none =>
      rw [hc.idle r hr] at hholds
      exact hholds.elim
    | some y =>
      obtain ⟨progress, hproc, hstands⟩ := hc.calls r y hr
      rw [hproc] at hholds
      have hlength := (List.getElem?_eq_some_iff.mp hr).1
      rcases hstands with ⟨hprogress, -⟩ | rfl | ⟨account, rfl⟩
      · exact Finset.mem_filter.mpr ⟨Finset.mem_range.mpr hlength, y, progress, hproc, hprogress, hr⟩
      · exact hholds.elim
      · exact hholds.elim
  have hempty : ¬pending.Nonempty := by
    intro hne
    obtain ⟨q, hq, hfree⟩ := exists_not_waiting hne hc.locks.ranked.acyclic hclosed
    obtain ⟨hlength, y, progress, hproc, hprogress, -⟩ := Finset.mem_filter.mp hq
    obtain ⟨action, haction, hnext⟩ := @exists_action c.shared.store q _ y hprogress
    rw [← hproc] at hnext
    obtain ⟨r, hwaits⟩ := exists_waits hnext
      (hfinished q (Finset.mem_range.mp hlength) action haction)
    exact hfree r hwaits
  obtain ⟨progress, hproc, hstands⟩ := hc.calls p x hx
  rcases hstands with ⟨hprogress, -⟩ | rfl | ⟨account, rfl⟩
  · refine absurd ⟨p, Finset.mem_filter.mpr ⟨?_, x, progress, hproc, hprogress, hx⟩⟩ hempty
    exact Finset.mem_range.mpr (List.getElem?_eq_some_iff.mp hx).1
  · exact Or.inl hproc
  · exact Or.inr ⟨account, hproc⟩

theorem credited_of_returned (h : FirstCredits userId currency db credits)
    (hc : Crediting userId currency credits c) (hreturned : ∀ p x, credits[p]? = some x →
      ∃ account, c.procs p = .calling x.op x.params (.returned (.ok account))) :
    Credited userId currency credits c := by
  have hpaid : ∑ p ∈ Finset.range credits.length, paid (c.procs p) =
      (credits.map fun x => x.params.amount.units).sum := by
    rw [← sum_range_getElem]
    refine Finset.sum_congr rfl fun p hp => ?_
    have hx := List.getElem?_eq_getElem (Finset.mem_range.mp hp)
    obtain ⟨account, hproc⟩ := hreturned p _ hx
    rw [hproc, hx]
    rfl
  have hpos : 0 < (credits.map fun x => x.params.amount.units).sum := by
    refine List.sum_pos _ (fun n hn => ?_) (by simpa using h.nonempty)
    obtain ⟨x, -, rfl⟩ := List.mem_map.mp hn
    exact x.params.amount.positive
  have hbalances := hc.balances
  rw [hpaid] at hbalances
  cases hfound : c.shared.store.findByUserAndCurrency userId currency with
  | none =>
    rw [accountBalances, hfound] at hbalances
    exact absurd (congrArg Prod.fst hbalances) hpos.ne
  | some account =>
    rw [accountBalances, hfound] at hbalances
    exact ⟨hreturned, account, filter_eq_of_lookup hc.accounts.wellFormed.owners hfound,
      congrArg Prod.fst hbalances⟩

/-- Concurrent first credits: when no call can take a further step, every call has returned
success and the one account holds the sum of the amounts, exactly when each insert on the
way found no account. -/
theorem credited_iff (h : FirstCredits userId currency db credits)
    (hrun : accountsSystem.Run (Proceeds credits) (started db credits) es d)
    (hfinished : Finished credits d) :
    Credited userId currency credits d ↔
      ∀ t ∈ accountsSystem.transitions (started db credits) es,
        InsertsFirst userId currency t.before t.event := by
  constructor
  · intro hcredited t ht
    by_contra hlate
    obtain ⟨p, x, hx, hfailed⟩ := failed_of_transition h hrun ht hlate
    obtain ⟨account, hreturned⟩ := hcredited.returned p x hx
    rw [hfailed] at hreturned
    cases hreturned
  · intro hfirst
    have hc := crediting_run h hrun
    refine credited_of_returned h hc fun p x hx => ?_
    rcases ended_of_finished hc hfinished hx with hfailed | hreturned
    · exact absurd hfailed (not_failed h hrun hfirst)
    · exact hreturned

theorem finished_of_ended (h : ∀ p < credits.length, ended (c.procs p) = true) :
    Finished credits c :=
  fun p hp _ _ => step_of_ended (h p hp)

/-- An executed schedule of the calls in which nothing fails is a run. -/
theorem proceeds_of_all (h : accountsSystem.exec (started db credits) es = some d)
    (hall : (accountsSystem.transitions (started db credits) es).all
      (fun t => decide (Proceeds credits t.before t.event)) = true) :
    accountsSystem.Run (Proceeds credits) (started db credits) es d :=
  .of_check h hall fun _ => of_decide_eq_true

theorem insertsFirst_of_all (hall : (accountsSystem.transitions (started db credits) es).all
      (fun t => decide (InsertsFirst userId currency t.before t.event)) = true) :
    ∀ t ∈ accountsSystem.transitions (started db credits) es,
      InsertsFirst userId currency t.before t.event :=
  fun t ht => of_decide_eq_true (List.all_eq_true.mp hall t ht)

theorem deposit_opensAccount : BalanceOperation.deposit.mutation.opensAccount = true := rfl

/-- Two deposits of a new user. -/
def twoDeposits : List Credit :=
  [⟨.deposit, ⟨"user", .usdt, .coins 1, "first", none⟩, deposit_opensAccount⟩,
    ⟨.deposit, ⟨"user", .usdt, .coins 2, "second", none⟩, deposit_opensAccount⟩]

theorem firstCredits_twoDeposits : FirstCredits "user" .usdt .empty twoDeposits where
  wellFormed := wellFormed_empty
  missing := rfl
  nonempty := by simp [twoDeposits]
  owner := by decide
  keys := by decide
  unused _ _ := rfl

/-- The second call looks for the account after the first has committed it. -/
def oneAfterTheOther : List (Event Action) :=
  [⟨0, .statement⟩, ⟨1, .statement⟩, ⟨0, .statement⟩, ⟨0, .insertAccount "account"⟩] ++
    List.replicate 3 ⟨0, .statement⟩ ++ List.replicate 4 ⟨1, .statement⟩

theorem oneAfterTheOther_executes :
    (accountsSystem.exec (started .empty twoDeposits) oneAfterTheOther).isSome = true := by
  decide

theorem credited_oneAfterTheOther : Credited "user" .usdt twoDeposits
    ((accountsSystem.exec (started .empty twoDeposits) oneAfterTheOther).get
      oneAfterTheOther_executes) :=
  (credited_iff firstCredits_twoDeposits
    (proceeds_of_all (Option.some_get _).symm (by decide))
    (finished_of_ended (by decide))).mpr (insertsFirst_of_all (by decide +kernel))

/-- Both calls find no account. The first opens it, and the insert of the second is
refused. -/
def bothOpen : List (Event Action) :=
  [⟨0, .statement⟩, ⟨1, .statement⟩, ⟨0, .statement⟩, ⟨1, .statement⟩,
    ⟨0, .insertAccount "account"⟩] ++ List.replicate 3 ⟨0, .statement⟩ ++
    [⟨1, .insertAccount "other"⟩]

theorem bothOpen_executes :
    (accountsSystem.exec (started .empty twoDeposits) bothOpen).isSome = true := by
  decide

/-- A call whose insert is refused reads the account in an aborted transaction, and throws. -/
theorem not_credited_bothOpen : ¬∀ userId currency db credits es d,
    FirstCredits userId currency db credits →
      accountsSystem.Run (Proceeds credits) (started db credits) es d → Finished credits d →
        Credited userId currency credits d := by
  intro h
  have hcredited := h "user" .usdt .empty twoDeposits bothOpen _ firstCredits_twoDeposits
    (proceeds_of_all (Option.some_get bothOpen_executes).symm (by decide))
    (finished_of_ended (by decide))
  obtain ⟨account, hreturned⟩ := hcredited.returned 1 _ rfl
  have hunpaid : paid (((accountsSystem.exec (started .empty twoDeposits) bothOpen).get
      bothOpen_executes).procs 1) = 0 := by
    decide
  rw [hreturned] at hunpaid
  have hunits : (Amount.coins 2).units = 0 := hunpaid
  exact absurd hunits (by decide)

end EtherTrade.FirstCreditLaws
