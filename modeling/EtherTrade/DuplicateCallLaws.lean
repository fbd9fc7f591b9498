import EtherTrade.AccountsDeadlockLaws
import EtherTrade.AccountsExactlyOnce

/-!
# Concurrent duplicates of a balance call

One balance call made any number of times at once, with one idempotency key, on an account
that has the funds for it. A call that finds the key in the ledger answers with a replay.
A call that has passed its check does not look again before its insert, and a refused
insert aborts its transaction: two calls past their checks never end in a replay.
-/

namespace EtherTrade.DuplicateCallLaws

open KeyedRows AccountsSchema PostedJournals AccountsDbInvariants
open BalanceMutations BalanceMutationCorrectness
open InterleavedProcesses ResourceLocks AccountsTransactions AccountsTransactionRuns
open AccountsTransactionSteps (callStep_effect)
open AccountsExactlyOnce AccountsDeadlockLaws

variable {db : AccountsDb} {op : BalanceOperation} {params : BalanceParams} {n p q : ℕ}
  {account : Account} {s s' : Shared} {action : Action} {progress progress' : CallProgress}
  {c d : AccountsConfig} {e : Event Action} {es : List (Event Action)}

/-- The account of the call has the funds for it, and the key of the call is unused. -/
structure Funded (db : AccountsDb) (op : BalanceOperation) (params : BalanceParams)
    (account : Account) : Prop where
  wellFormed : WellFormed db
  found : db.findByUserAndCurrency params.userId params.currency = some account
  funds : op.mutation.refusal account params.amount = none
  unused : db.findLedgerByIdempotencyKey params.idempotencyKey = none

/-- The call has begun `n` times. -/
def started (db : AccountsDb) (op : BalanceOperation) (params : BalanceParams) (n : ℕ) :
    AccountsConfig :=
  ⟨⟨db, LockTable.free⟩, fun p => if p < n then .calling op params .begun else .idle⟩

/-- Only the calls take steps, and none of them is made to fail. -/
def Proceeds (n : ℕ) (_ : AccountsConfig) (e : Event Action) : Prop :=
  e.proc < n ∧ e.action ≠ .abort

instance : Decidable (Proceeds n c e) := inferInstanceAs (Decidable (_ ∧ _))

/-- No call can take a step. -/
def Finished (n : ℕ) (c : AccountsConfig) : Prop :=
  ∀ p < n, ∀ action, action ≠ .abort → step p c.shared (c.procs p) action = none

/-- One call has returned OK, and each other one a replay, all with the account. -/
def Answered (op : BalanceOperation) (params : BalanceParams) (n : ℕ) (c : AccountsConfig) :
    Prop :=
  ∃ account, c.shared.store.findByUserAndCurrency params.userId params.currency = some account ∧
    ∃ p < n, c.procs p = .calling op params (.returned (.ok account)) ∧
      ∀ q < n, q ≠ p → c.procs q = .calling op params (.returned (.idempotentReplay account))

/-- Whether a call has still to make its replay check. -/
def atStart : Process → Bool
  | .calling _ _ .begun => true
  | _ => false

/-- A replay check finds the key in the ledger, or every other call has still to make its
own. -/
def ChecksApart (params : BalanceParams) (n : ℕ) (c : AccountsConfig) (e : Event Action) : Prop :=
  atStart (c.procs e.proc) = true →
    KeyUsed params.idempotencyKey c ∨ ∀ q < n, q ≠ e.proc → atStart (c.procs q) = true

instance : Decidable (KeyUsed params.idempotencyKey c) := inferInstanceAs (Decidable (_ = true))

instance : Decidable (ChecksApart params n c e) :=
  inferInstanceAs (Decidable (_ → _ ∨ ∀ q < n, q ≠ e.proc → atStart (c.procs q) = true))

/-! ### Calls past their checks -/

/-- The points from which a call does not come to answer with a replay. -/
def NeverReplays : CallProgress → Prop
  | .begun => False
  | .replaying _ => False
  | .returning (.idempotentReplay _) => False
  | .returned (.idempotentReplay _) => False
  | _ => True

theorem refusal_ne_replay {amount : Amount} {replayed : Account} :
    op.mutation.refusal account amount ≠ some (.idempotentReplay replayed) := by
  intro h
  rcases refusal_eq_some h with h | h <;> cases h

theorem neverReplays_step (hprogress : NeverReplays progress)
    (h : callStep p s op.mutation params progress action = some (s', progress')) :
    NeverReplays progress' := by
  have heffect := callStep_effect h
  cases heffect with
  | unused hcheck => exact hprogress.elim
  | mismatched => exact hprogress.elim
  | replaying hcheck => exact hprogress.elim
  | replayed => exact hprogress.elim
  | absent => split <;> trivial
  | @refused account opened result hrefused =>
    cases result with
    | idempotentReplay replayed => exact absurd hrefused refusal_ne_replay
    | _ => trivial
  | @returned result =>
    cases result with
    | idempotentReplay => exact hprogress
    | _ => trivial
  | _ => trivial

/-- A call that does not come to answer with a replay. -/
def Past (op : BalanceOperation) (params : BalanceParams) (l : Process) : Prop :=
  ∃ progress, l = .calling op params progress ∧ NeverReplays progress

theorem past_step {l l' : Process} (hl : Past op params l)
    (h : step p s l action = some (s', l')) : Past op params l' := by
  obtain ⟨progress, rfl, hprogress⟩ := hl
  simp only [step, Option.map_eq_some_iff, Prod.mk.injEq] at h
  obtain ⟨⟨s₁, progress'⟩, hstep, rfl, rfl⟩ := h
  exact ⟨progress', rfl, neverReplays_step hprogress hstep⟩

/-- A call under way while the key is unused is past its check. -/
structure Traced (op : BalanceOperation) (params : BalanceParams) (n : ℕ) (c : AccountsConfig) :
    Prop where
  accounts : AccountsInvariant (fun _ => True) c
  calls : ∀ p < n, c.procs p = .calling op params .begun ∨ Past op params (c.procs p) ∨
    KeyUsed params.idempotencyKey c

theorem started_procs (hp : p < n) : (started db op params n).procs p = .calling op params .begun :=
  if_pos hp

theorem traced_started (hdb : WellFormed db) : Traced op params n (started db op params n) where
  accounts := by
    refine ⟨hdb, fun p => ?_⟩
    simp only [started]
    split <;> trivial
  calls _ hp := Or.inl (started_procs hp)

theorem past_of_check (hkey : ¬KeyUsed params.idempotencyKey c) {l' : Process}
    (h : step p c.shared (.calling op params .begun) action = some (s', l')) :
    Past op params l' := by
  simp only [step, Option.map_eq_some_iff, Prod.mk.injEq] at h
  obtain ⟨⟨s₁, progress'⟩, hstep, rfl, rfl⟩ := h
  refine ⟨progress', rfl, ?_⟩
  cases action with
  | statement =>
    simp only [callStep, (checkReplay_eq_unused _).mpr (Option.not_isSome_iff_eq_none.mp hkey)]
      at hstep
    obtain ⟨-, rfl⟩ := Prod.mk.inj (Option.some.inj hstep)
    trivial
  | abort =>
    obtain ⟨-, rfl⟩ := Prod.mk.inj (Option.some.inj hstep)
    trivial
  | _ => cases hstep

theorem traced_next (hc : Traced op params n c) (h : accountsSystem.next c e = some d) :
    Traced op params n d := by
  refine ⟨accountsInvariant_next hc.accounts (fun _ _ _ _ _ => trivial) h, fun p hp => ?_⟩
  by_cases hkey : KeyUsed params.idempotencyKey c
  · exact Or.inr (Or.inr ((keyUsed_next hc.accounts h _).1 hkey))
  by_cases hpe : p = e.proc
  · subst hpe
    obtain ⟨s', l', hs, rfl⟩ := System.next_eq_some.mp h
    change step e.proc c.shared (c.procs e.proc) e.action = some (s', l') at hs
    refine Or.inr (Or.inl ?_)
    change Past op params (Function.update c.procs e.proc l' e.proc)
    rw [Function.update_self]
    rcases hc.calls e.proc hp with hbegun | hpast | hused
    · rw [hbegun] at hs
      exact past_of_check hkey hs
    · exact past_step hpast hs
    · exact absurd hused hkey
  · rw [System.next_procs_of_ne h hpe]
    rcases hc.calls p hp with hbegun | hpast | hused
    · exact Or.inl hbegun
    · exact Or.inr (Or.inl hpast)
    · exact absurd hused hkey

/-- Two calls that have both passed their checks are not both answered. -/
theorem not_answered_of_past (hpq : p ≠ q) (hp : p < n) (hq : q < n)
    (hpast : Past op params (c.procs p)) (hpast' : Past op params (c.procs q)) :
    ¬Answered op params n c := by
  rintro ⟨account, -, first, -, -, hothers⟩
  have hfirst : ∀ r < n, Past op params (c.procs r) → r = first := by
    rintro r hr ⟨progress, hproc, hprogress⟩
    by_contra hne
    obtain ⟨-, -, rfl⟩ := Process.calling.inj (hproc.symm.trans (hothers r hr hne))
    exact hprogress
  exact hpq ((hfirst p hp hpast).trans (hfirst q hq hpast').symm)

theorem not_answered_of_transition (hdb : WellFormed db)
    (hrun : accountsSystem.Run (Proceeds n) (started db op params n) es d)
    {t : System.Transition Shared Process Action}
    (ht : t ∈ accountsSystem.transitions (started db op params n) es)
    (hapart : ¬ChecksApart params n t.before t.event) : ¬Answered op params n d := by
  obtain ⟨hc, hproceeds, hnext⟩ := hrun.transitions_invariant (traced_started hdb)
    (fun _ _ _ hc _ hnext => traced_next hc hnext) t ht
  obtain ⟨-, later, -, -, -, hlater⟩ := System.exec_transition hrun.executes ht
  simp only [ChecksApart, not_forall, not_or] at hapart
  obtain ⟨hstart, hkey, q, hq, hqe, hnotStart⟩ := hapart
  -- the call that checks passes, and the other one had passed before
  have hother : Past op params (t.before.procs q) := by
    rcases hc.calls q hq with hbegun | hpast | hused
    · rw [hbegun] at hnotStart
      exact absurd rfl hnotStart
    · exact hpast
    · exact absurd hused hkey
  have hself : Past op params (t.after.procs t.event.proc) := by
    obtain ⟨s', l', hs, hafter⟩ := System.next_eq_some.mp hnext
    change step _ _ _ _ = _ at hs
    rw [hafter]
    change Past op params (Function.update t.before.procs t.event.proc l' t.event.proc)
    rw [Function.update_self]
    rcases hc.calls _ hproceeds.1 with hbegun | ⟨progress, hproc, hprogress⟩ | hused
    · rw [hbegun] at hs
      exact past_of_check hkey hs
    · exact past_step ⟨progress, hproc, hprogress⟩ hs
    · exact absurd hused hkey
  have hboth := System.exec_invariant
    (I := fun c => Past op params (c.procs t.event.proc) ∧ Past op params (c.procs q))
    hlater ⟨hself, by rwa [System.next_procs_of_ne hnext hqe]⟩ fun c e d hpast hstep =>
      ⟨System.next_proc hstep hpast.1 fun _ _ _ _ => past_step hpast.1,
        System.next_proc hstep hpast.2 fun _ _ _ _ => past_step hpast.2⟩
  exact not_answered_of_past (Ne.symm hqe) hproceeds.1 hq hboth.1 hboth.2

/-! ### One call at a time -/

/-- The points of a call that has found its key unused, until its commit. -/
inductive UnderWay (account : Account) : CallProgress → Prop
  | checked : UnderWay account .checked
  | held : UnderWay account (.held account false)
  | updated : UnderWay account (.updated account false)
  | written : UnderWay account (.written account false)

/-- The points of a call on its way to a replay with the account. -/
inductive Replays (account : Account) : CallProgress → Prop
  | begun : Replays account .begun
  | replaying : Replays account (.replaying account.id)
  | returning : Replays account (.returning (.idempotentReplay account))
  | returned : Replays account (.returned (.idempotentReplay account))

/-- Before the commit: no more than one call is past its check. -/
structure Waiting (db : AccountsDb) (op : BalanceOperation) (params : BalanceParams) (n : ℕ)
    (account : Account) (c : AccountsConfig) : Prop where
  store : c.shared.store = db
  idle : ∀ p, n ≤ p → c.procs p = .idle
  calls : ∀ p < n, ∃ progress, c.procs p = .calling op params progress ∧
    (progress = .begun ∨ UnderWay account progress)
  alone : ∀ p < n, ∀ q < n, q ≠ p → atStart (c.procs p) = false → atStart (c.procs q) = true

/-- After the commit: one call has returned OK, the others replay. -/
structure Replaying (db : AccountsDb) (op : BalanceOperation) (params : BalanceParams) (n : ℕ)
    (account : Account) (c : AccountsConfig) : Prop where
  store : c.shared.store = op.mutation.commit params account db
  calls : ∃ p < n, c.procs p =
      .calling op params (.returned (.ok (op.mutation.updatedAccount params account))) ∧
    ∀ q < n, q ≠ p → ∃ progress, c.procs q = .calling op params progress ∧
      Replays (op.mutation.updatedAccount params account) progress

namespace Funded

variable (h : Funded db op params account)
include h

theorem prepared : Prepared op.mutation params db account db := .found h.found h.funds

theorem findById_commit : (op.mutation.commit params account db).findById account.id =
    some (op.mutation.updatedAccount params account) := by
  have hrow : db.findById account.id = some account := h.wellFormed.findById_of_owner h.found
  rw [commit_eq h.wellFormed hrow, findById_insertLedgerTransactions, findById_adjust, hrow,
    Option.map_some]
  simp [leg, totalChange_cons, BalanceMutation.updatedAccount]

theorem found_commit :
    (op.mutation.commit params account db).findByUserAndCurrency params.userId params.currency =
      some (op.mutation.updatedAccount params account) := by
  obtain ⟨huser, hcurrency⟩ := Prod.mk.inj (findByUserAndCurrency_owner h.found)
  rw [← huser, ← hcurrency]
  exact (wellFormed_commit h.unused h.prepared h.wellFormed).findByUserAndCurrency_of_id
    h.findById_commit

theorem checkReplay_commit :
    checkReplay op.mutation.expectedType params (op.mutation.commit params account db) =
      .replay account.id := by
  rw [checkReplay, findLedger_commit, h.unused, Option.none_or, if_pos rfl]
  exact if_pos ⟨rfl, rfl, rfl⟩

end Funded

theorem underWay_step (h : Funded db op params account) (hstore : s.store = db)
    (hprogress : UnderWay account progress) (haction : action ≠ .abort)
    (hstep : callStep p s op.mutation params progress action = some (s', progress')) :
    (s'.store = db ∧ UnderWay account progress') ∨
      (s'.store = op.mutation.commit params account db ∧
        progress' = .returned (.ok (op.mutation.updatedAccount params account))) := by
  cases action with
  | statement =>
    cases hprogress with
    | checked =>
      simp only [callStep, hstore, h.found] at hstep
      split at hstep
      · obtain ⟨rfl, rfl⟩ := Prod.mk.inj (Option.some.inj hstep)
        exact Or.inl ⟨hstore, .held⟩
      · cases hstep
    | held =>
      have hguard : (if (false : Bool) = true then none
          else op.mutation.refusal account params.amount) = none := h.funds
      simp only [callStep, hguard] at hstep
      obtain ⟨rfl, rfl⟩ := Prod.mk.inj (Option.some.inj hstep)
      exact Or.inl ⟨hstore, .updated⟩
    | updated =>
      simp only [callStep, hstore, h.unused] at hstep
      split at hstep
      · obtain ⟨rfl, rfl⟩ := Prod.mk.inj (Option.some.inj hstep)
        exact Or.inl ⟨hstore, .written⟩
      · cases hstep
    | written =>
      obtain ⟨rfl, rfl⟩ := Prod.mk.inj (Option.some.inj hstep)
      exact Or.inr ⟨congrArg (op.mutation.commit params account) hstore, rfl⟩
  | abort => exact absurd rfl haction
  | _ => cases hprogress <;> cases hstep

theorem check_step (hkey : s.store.findLedgerByIdempotencyKey params.idempotencyKey = none)
    (haction : action ≠ .abort)
    (hstep : callStep p s op.mutation params .begun action = some (s', progress')) :
    s' = s ∧ progress' = .checked := by
  cases action with
  | statement =>
    simp only [callStep, (checkReplay_eq_unused _).mpr hkey] at hstep
    obtain ⟨rfl, rfl⟩ := Prod.mk.inj (Option.some.inj hstep)
    exact ⟨rfl, rfl⟩
  | abort => exact absurd rfl haction
  | _ => cases hstep

theorem replays_step (h : Funded db op params account)
    (hstore : s.store = op.mutation.commit params account db)
    (hprogress : Replays (op.mutation.updatedAccount params account) progress)
    (haction : action ≠ .abort)
    (hstep : callStep p s op.mutation params progress action = some (s', progress')) :
    s'.store = s.store ∧ Replays (op.mutation.updatedAccount params account) progress' := by
  cases action with
  | statement =>
    cases hprogress with
    | begun =>
      simp only [callStep, hstore, h.checkReplay_commit] at hstep
      obtain ⟨rfl, rfl⟩ := Prod.mk.inj (Option.some.inj hstep)
      exact ⟨rfl, .replaying⟩
    | replaying =>
      have hrow : readReplayedAccount (op.mutation.updatedAccount params account).id s.store =
          .idempotentReplay (op.mutation.updatedAccount params account) := by
        have hfound := h.findById_commit
        rw [← hstore] at hfound
        simp only [readReplayedAccount, BalanceMutation.updatedAccount, Account.add_id] at hfound ⊢
        rw [hfound]
      simp only [callStep, hrow] at hstep
      obtain ⟨rfl, rfl⟩ := Prod.mk.inj (Option.some.inj hstep)
      exact ⟨rfl, .returning⟩
    | returning =>
      obtain ⟨rfl, rfl⟩ := Prod.mk.inj (Option.some.inj hstep)
      exact ⟨rfl, .returned⟩
    | returned => cases hstep
  | abort => exact absurd rfl haction
  | _ => cases hprogress <;> cases hstep

/-- While the calls check one at a time: before or after the commit. -/
structure Apart (db : AccountsDb) (op : BalanceOperation) (params : BalanceParams) (n : ℕ)
    (account : Account) (c : AccountsConfig) : Prop where
  locks : LocksInOrder c
  phase : Waiting db op params n account c ∨ Replaying db op params n account c

theorem apart_started : Apart db op params n account (started db op params n) where
  locks := by
    intro p
    refine ⟨fun r hr => ?_, ?_⟩
    · cases hr
    · simp only [started]
      split <;> trivial
  phase := by
    refine Or.inl ⟨rfl, fun p hp => if_neg hp.not_gt, fun p hp => ?_, fun p hp q hq _ hpast => ?_⟩
    · exact ⟨.begun, started_procs hp, Or.inl rfl⟩
    · rw [started_procs hp] at hpast
      cases hpast

theorem UnderWay.atStart_eq (h : UnderWay account progress) :
    atStart (.calling op params progress) = false := by
  cases h <;> rfl

theorem waiting_next (h : Funded db op params account) (hc : Waiting db op params n account c)
    (hproceeds : Proceeds n c e) (hapart : ChecksApart params n c e)
    (hnext : accountsSystem.next c e = some d) :
    Waiting db op params n account d ∨ Replaying db op params n account d := by
  obtain ⟨hproc, haction⟩ := hproceeds
  obtain ⟨progress, hbefore, hprogress⟩ := hc.calls _ hproc
  obtain ⟨s', l', hs, rfl⟩ := System.next_eq_some.mp hnext
  change step e.proc c.shared (c.procs e.proc) e.action = some (s', l') at hs
  rw [hbefore] at hs
  simp only [step, Option.map_eq_some_iff, Prod.mk.injEq] at hs
  obtain ⟨⟨s₁, progress'⟩, hstep, rfl, rfl⟩ := hs
  have hunused : ¬KeyUsed params.idempotencyKey c := by
    rw [KeyUsed, hc.store, h.unused]
    exact Bool.false_ne_true
  have hidle (p : ℕ) (hp : n ≤ p) (l : Process) : Function.update c.procs e.proc l p = .idle := by
    rw [Function.update_of_ne (hproc.trans_le hp).ne']
    exact hc.idle p hp
  -- when the others are still to check, the next point of this call is all that matters
  have hothers : ∀ q < n, q ≠ e.proc → atStart (c.procs q) = true := by
    intro q hq hqe
    cases hstart : atStart (c.procs e.proc) with
    | true => exact (hapart hstart).resolve_left hunused q hq hqe
    | false => exact hc.alone _ hproc q hq hqe hstart
  have hbegun : ∀ q < n, q ≠ e.proc → c.procs q = .calling op params .begun := by
    intro q hq hqe
    obtain ⟨progress, hq', hbegun | hway⟩ := hc.calls q hq
    · rw [hq', hbegun]
    · have hstart := hothers q hq hqe
      rw [hq', hway.atStart_eq] at hstart
      cases hstart
  have hwaiting (hstore : s₁.store = db) (hway : UnderWay account progress') :
      Waiting db op params n account
        ⟨s₁, Function.update c.procs e.proc (.calling op params progress')⟩ := by
    refine ⟨hstore, fun p hp => hidle p hp _, fun p hp => ?_, fun p hp q hq hqp hpast => ?_⟩
    · by_cases hpe : p = e.proc
      · subst hpe
        exact ⟨progress', Function.update_self .., Or.inr hway⟩
      · exact ⟨.begun, (Function.update_of_ne hpe _ _).trans (hbegun p hp hpe), Or.inl rfl⟩
    · by_cases hpe : p = e.proc
      · subst hpe
        exact (congrArg atStart (Function.update_of_ne hqp _ _)).trans (hothers q hq hqp)
      · have hstart := (congrArg atStart (Function.update_of_ne hpe _ _)).symm.trans hpast
        rw [hothers p hp hpe] at hstart
        cases hstart
  rcases hprogress with rfl | hway
  · have hkey : c.shared.store.findLedgerByIdempotencyKey params.idempotencyKey = none := by
      rw [hc.store]
      exact h.unused
    obtain ⟨rfl, rfl⟩ := check_step hkey haction hstep
    exact Or.inl (hwaiting hc.store .checked)
  · rcases underWay_step h hc.store hway haction hstep with ⟨hstore, hway'⟩ | ⟨hstore, rfl⟩
    · exact Or.inl (hwaiting hstore hway')
    · refine Or.inr ⟨hstore, e.proc, hproc, Function.update_self .., fun q hq hqe => ?_⟩
      exact ⟨.begun, (Function.update_of_ne hqe _ _).trans (hbegun q hq hqe), .begun⟩

theorem replaying_next (h : Funded db op params account)
    (hc : Replaying db op params n account c) (hproceeds : Proceeds n c e)
    (hnext : accountsSystem.next c e = some d) : Replaying db op params n account d := by
  obtain ⟨hproc, haction⟩ := hproceeds
  obtain ⟨p, hp, hfirst, hothers⟩ := hc.calls
  obtain ⟨s', l', hs, rfl⟩ := System.next_eq_some.mp hnext
  change step e.proc c.shared (c.procs e.proc) e.action = some (s', l') at hs
  by_cases hpe : e.proc = p
  · rw [hpe, hfirst] at hs
    cases haction' : e.action with
    | abort => exact absurd haction' haction
    | _ =>
      rw [haction'] at hs
      cases hs
  · obtain ⟨progress, hbefore, hprogress⟩ := hothers _ hproc hpe
    rw [hbefore] at hs
    simp only [step, Option.map_eq_some_iff, Prod.mk.injEq] at hs
    obtain ⟨⟨s₁, progress'⟩, hstep, rfl, rfl⟩ := hs
    obtain ⟨hstore, hprogress'⟩ := replays_step h hc.store hprogress haction hstep
    refine ⟨hstore.trans hc.store, p, hp, (Function.update_of_ne (Ne.symm hpe) _ _).trans hfirst,
      fun q hq hqp => ?_⟩
    by_cases hqe : q = e.proc
    · subst hqe
      exact ⟨progress', Function.update_self .., hprogress'⟩
    · obtain ⟨progress, hq', hreplays⟩ := hothers q hq hqp
      exact ⟨progress, (Function.update_of_ne hqe _ _).trans hq', hreplays⟩

theorem apart_next (h : Funded db op params account) (hc : Apart db op params n account c)
    (hguard : Proceeds n c e ∧ ChecksApart params n c e)
    (hnext : accountsSystem.next c e = some d) : Apart db op params n account d :=
  ⟨locksInOrder_next hc.locks hnext, hc.phase.elim
    (fun hwaiting => waiting_next h hwaiting hguard.1 hguard.2 hnext)
    fun hreplaying => Or.inr (replaying_next h hreplaying hguard.1 hnext)⟩

/-! ### The end of a run -/

theorem exists_action (hdb : db.findByUserAndCurrency params.userId params.currency = some account)
    (hprogress : progress = .begun ∨ UnderWay account progress) :
    step p ⟨db, LockTable.free⟩ (.calling op params progress) .statement ≠ none := by
  rcases hprogress with rfl | hway
  · simp only [step, callStep]
    split <;> simp
  · cases hway with
    | checked => simp [step, callStep, hdb]
    | held =>
      simp only [step, callStep]
      split <;> simp
    | updated =>
      simp only [step, callStep, LockTable.available_free, if_true]
      split <;> simp
    | written => simp [step, callStep]

theorem not_mayHold_of_atStart {l : Process} (h : atStart l = true) (r : Resource) :
    ¬MayHold l r := by
  unfold atStart at h
  split at h
  · exact id
  · cases h

/-- Before the commit some call can take a step: only one holds locks, and it waits for
nobody. -/
theorem Waiting.not_finished (hc : Waiting db op params n account c) (hlocks : LocksInOrder c)
    (hdb : db.findByUserAndCurrency params.userId params.currency = some account) (hn : 0 < n) :
    ¬Finished n c := by
  intro hfinished
  obtain ⟨p, hp, hothers⟩ : ∃ p < n, ∀ q < n, q ≠ p → atStart (c.procs q) = true := by
    by_cases hpast : ∃ p < n, atStart (c.procs p) = false
    · obtain ⟨p, hp, hpast⟩ := hpast
      exact ⟨p, hp, fun q hq hqp => hc.alone p hp q hq hqp hpast⟩
    · refine ⟨0, hn, fun q hq _ => ?_⟩
      cases hstart : atStart (c.procs q) with
      | true => rfl
      | false => exact absurd ⟨q, hq, hstart⟩ hpast
  obtain ⟨progress, hproc, hprogress⟩ := hc.calls p hp
  have hnext : step p ⟨c.shared.store, LockTable.free⟩ (c.procs p) .statement ≠ none := by
    rw [hproc, hc.store]
    exact exists_action hdb hprogress
  obtain ⟨q, hpq, resource, -, hheld⟩ :=
    exists_waits hnext (hfinished p hp .statement (by simp))
  have hholds := (hlocks q).holds resource hheld
  by_cases hq : q < n
  · exact not_mayHold_of_atStart (hothers q hq (Ne.symm hpq)) resource hholds
  · rw [hc.idle q (Nat.le_of_not_lt hq)] at hholds
    exact hholds

theorem Replaying.answered (h : Funded db op params account)
    (hc : Replaying db op params n account c) (hfinished : Finished n c) :
    Answered op params n c := by
  obtain ⟨p, hp, hfirst, hothers⟩ := hc.calls
  refine ⟨_, by rw [hc.store]; exact h.found_commit, p, hp, hfirst, fun q hq hqp => ?_⟩
  obtain ⟨progress, hproc, hreplays⟩ := hothers q hq hqp
  have hlast := hfinished q hq .statement (by simp)
  rw [hproc] at hlast ⊢
  cases hreplays with
  | begun =>
    simp only [step, callStep, hc.store, h.checkReplay_commit] at hlast
    cases hlast
  | replaying => cases hlast
  | returning => cases hlast
  | returned => rfl

/-- Concurrent duplicates: when no call can take a further step, one has returned OK and the
others a replay with the account, exactly when on the way no call found the key unused while
another was past its check. -/
theorem answered_iff (h : Funded db op params account) (hn : 0 < n)
    (hrun : accountsSystem.Run (Proceeds n) (started db op params n) es d)
    (hfinished : Finished n d) :
    Answered op params n d ↔ ∀ t ∈ accountsSystem.transitions (started db op params n) es,
      ChecksApart params n t.before t.event := by
  constructor
  · intro hanswered t ht
    by_contra hapart
    exact not_answered_of_transition h.wellFormed hrun ht hapart hanswered
  · intro hapart
    obtain ⟨hlocks, hwaiting | hreplaying⟩ :=
      (hrun.strengthen hapart).invariant apart_started fun _ _ _ => apart_next h
    · exact absurd hfinished (hwaiting.not_finished hlocks h.found hn)
    · exact hreplaying.answered h hfinished

theorem finished_of_ended (h : ∀ p < n, ended (c.procs p) = true) : Finished n c :=
  fun p hp _ _ => step_of_ended (h p hp)

/-- An executed schedule of the calls in which none is made to fail is a run. -/
theorem proceeds_of_all (h : accountsSystem.exec (started db op params n) es = some d)
    (hall : (accountsSystem.transitions (started db op params n) es).all
      (fun t => decide (Proceeds n t.before t.event)) = true) :
    accountsSystem.Run (Proceeds n) (started db op params n) es d :=
  .of_check h hall fun _ => of_decide_eq_true

theorem checksApart_of_all (hall : (accountsSystem.transitions (started db op params n) es).all
      (fun t => decide (ChecksApart params n t.before t.event)) = true) :
    ∀ t ∈ accountsSystem.transitions (started db op params n) es,
      ChecksApart params n t.before t.event :=
  fun t ht => of_decide_eq_true (List.all_eq_true.mp hall t ht)

/-- A user with five coins. -/
def funded : AccountsDb :=
  (deposit "account" ⟨"user", .usdt, .coins 5, "deposit", none⟩ .empty).1

/-- The lock of one coin for an order. -/
def lockParams : BalanceParams := ⟨"user", .usdt, .coins 1, "lock", some "order"⟩

def fundedAccount : Account := (Account.zero "account" "user" .usdt).add ((Amount.coins 5).units, 0)

theorem funded_lock : Funded funded .lock lockParams fundedAccount where
  wellFormed := wellFormed_commit rfl (.opened rfl rfl rfl) wellFormed_empty
  found := by decide +kernel
  funds := by decide +kernel
  unused := by decide +kernel

/-- The second call makes its check after the first has committed. -/
def retried : List (Event Action) :=
  List.replicate 5 ⟨0, .statement⟩ ++ List.replicate 3 ⟨1, .statement⟩

theorem retried_executes :
    (accountsSystem.exec (started funded .lock lockParams 2) retried).isSome = true := by
  decide +kernel

theorem answered_retried : Answered .lock lockParams 2
    ((accountsSystem.exec (started funded .lock lockParams 2) retried).get retried_executes) :=
  (answered_iff funded_lock (by decide) (proceeds_of_all (Option.some_get _).symm
    (by decide +kernel)) (finished_of_ended (by decide +kernel))).mpr
      (checksApart_of_all (by decide +kernel))

/-- Both calls check. The second waits for the account until the first has committed, and its
insert is refused. -/
def doubled : List (Event Action) :=
  [⟨0, .statement⟩, ⟨1, .statement⟩] ++ List.replicate 4 ⟨0, .statement⟩ ++
    List.replicate 3 ⟨1, .statement⟩

theorem doubled_executes :
    (accountsSystem.exec (started funded .lock lockParams 2) doubled).isSome = true := by
  decide +kernel

/-- A call that the unique index refuses looks for the earlier row in an aborted transaction,
and throws. -/
theorem not_answered_doubled : ¬∀ db op params account n es d, Funded db op params account →
    2 ≤ n → accountsSystem.Run (Proceeds n) (started db op params n) es d → Finished n d →
      Answered op params n d := by
  intro h
  have hrun : accountsSystem.Run (Proceeds 2) (started funded .lock lockParams 2) doubled _ :=
    proceeds_of_all (Option.some_get doubled_executes).symm (by decide +kernel)
  have hfinished : Finished 2 ((accountsSystem.exec (started funded .lock lockParams 2) doubled).get
      doubled_executes) := finished_of_ended (by decide +kernel)
  have hlate : ¬∀ t ∈ accountsSystem.transitions (started funded .lock lockParams 2) doubled,
      ChecksApart lockParams 2 t.before t.event := by
    intro hapart
    have hall : (accountsSystem.transitions (started funded .lock lockParams 2) doubled).all
        (fun t => decide (ChecksApart lockParams 2 t.before t.event)) = true :=
      List.all_eq_true.mpr fun t ht => decide_eq_true (hapart t ht)
    exact absurd hall (by decide +kernel)
  simp only [not_forall] at hlate
  obtain ⟨t, ht, hlate⟩ := hlate
  exact not_answered_of_transition funded_lock.wellFormed hrun ht hlate
    (h _ _ _ _ _ _ _ funded_lock le_rfl hrun hfinished)

end EtherTrade.DuplicateCallLaws
