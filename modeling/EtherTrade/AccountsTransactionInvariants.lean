import EtherTrade.AccountsDbHistory
import EtherTrade.AccountsTransactions

/-!
# What a process knows under its locks

Every process keeps an invariant about the resources it has locked and about accounts it
has found. The first part survives the steps of others because they change nothing that
is locked; the second because accounts stay. From the invariant, each step of a process
either leaves the committed database alone or commits one complete change.
-/

namespace EtherTrade.AccountsTransactionInvariants

open KeyedRows AccountsSchema PostedJournals AccountsDbInvariants
open BalanceMutations BalanceMutationCorrectness TradeSettlement TradeSettlementCorrectness
open AccountsDbHistory InterleavedProcesses ResourceLocks AccountsTransactions

/-! ### What can be seen of a resource -/

inductive Observation where
  | account (row : Option Account)
  | present (entry : Bool)

def view (db : AccountsDb) : Resource → Observation
  | .account id => .account (db.findById id)
  | .owner userId currency => .present (db.findByUserAndCurrency userId currency).isSome
  | .idempotencyKey key => .present (db.findLedgerByIdempotencyKey key).isSome
  | .event eventId => .present (db.findProcessedEvent eventId).isSome

/-- An index entry that was absent under a lock is still absent. -/
theorem present_none {α : Type} {o o' : Option α}
    (h : Observation.present o'.isSome = .present o.isSome) (ho : o = none) : o' = none := by
  subst ho
  simpa using h

variable {db db' : AccountsDb} {p q : ℕ} {s s' : Shared} {r : Resource}

theorem view_insertAccount {a : Account} (h : view (db.insertAccount a) r ≠ view db r) :
    r = .account a.id ∨ r = .owner a.userId a.currency := by
  cases r with
  | account id =>
    left
    by_contra hne
    refine h ?_
    have hid : a.id ≠ id := fun he => hne (by rw [he])
    simp [view, findById_insertAccount, hid]
  | owner userId currency =>
    right
    by_contra hne
    refine h ?_
    have howner : a.owner ≠ (userId, currency) := by
      intro he
      obtain ⟨rfl, rfl⟩ := Prod.mk.inj he
      exact hne rfl
    simp [view, findByUserAndCurrency_insertAccount, howner]
  | idempotencyKey key => exact absurd rfl h
  | event eventId => exact absurd rfl h

theorem view_adjust {change : Uuid → Balances} (h : view (db.adjust change) r ≠ view db r) :
    ∃ id, r = .account id ∧ change id ≠ 0 := by
  cases r with
  | account id =>
    refine ⟨id, rfl, fun hzero => h ?_⟩
    simp only [view, findById_adjust]
    cases ha : db.findById id with
    | none => rfl
    | some a => simp [findById_id ha, hzero]
  | owner userId currency =>
    refine absurd ?_ h
    simp [view, findByUserAndCurrency_adjust]
  | idempotencyKey key => exact absurd rfl h
  | event eventId => exact absurd rfl h

theorem view_insertLedgerTransactions {ts : List LedgerTransaction}
    (h : view (db.insertLedgerTransactions ts) r ≠ view db r) :
    ∃ t ∈ ts, ∃ key, t.idempotencyKey = some key ∧ r = .idempotencyKey key := by
  cases r with
  | idempotencyKey key =>
    by_contra hne
    refine h ?_
    have hnone : lookup LedgerTransaction.idempotencyKey ts (some key) = none :=
      lookup_eq_none.mpr fun t ht hk => hne ⟨t, ht, key, hk, rfl⟩
    simp only [lookup] at hnone
    simp [view, AccountsDb.insertLedgerTransactions, AccountsDb.findLedgerByIdempotencyKey, lookup,
      List.find?_append, hnone]
  | account id => exact absurd rfl h
  | owner userId currency => exact absurd rfl h
  | event eventId => exact absurd rfl h

theorem view_markEventProcessed {e : ProcessedEvent}
    (h : view (db.markEventProcessed e) r ≠ view db r) : r = .event e.eventId := by
  cases r with
  | event eventId =>
    by_contra hne
    refine h ?_
    have hid : e.eventId ≠ eventId := fun he => hne (by rw [he])
    simp [view, AccountsDb.markEventProcessed, AccountsDb.findProcessedEvent,
      lookup_append_singleton, hid]
  | account id => exact absurd rfl h
  | owner userId currency => exact absurd rfl h
  | idempotencyKey key => exact absurd rfl h

/-- Accounts stay, with their users and currencies, and so do processed events. -/
structure Extends (db db' : AccountsDb) : Prop where
  accounts : ∀ id a, db.findById id = some a →
    ∃ a', db'.findById id = some a' ∧ a'.owner = a.owner
  events : ∀ eventId, db.isEventProcessed eventId = true → db'.isEventProcessed eventId = true

theorem Extends.refl (db : AccountsDb) : Extends db db := ⟨fun _ a h => ⟨a, h, rfl⟩, fun _ h => h⟩

theorem extends_insertAccount {a : Account} : Extends db (db.insertAccount a) :=
  ⟨fun _ b h => ⟨b, findById_insertAccount_of_some h, rfl⟩, fun _ h => h⟩

theorem extends_adjust {change : Uuid → Balances} {ts : List LedgerTransaction} :
    Extends db ((db.adjust change).insertLedgerTransactions ts) := by
  refine ⟨fun id a h => ⟨a.add (change a.id), ?_, rfl⟩, fun _ h => h⟩
  rw [findById_insertLedgerTransactions, findById_adjust, h, Option.map_some]

theorem extends_markEventProcessed {e : ProcessedEvent} : Extends db (db.markEventProcessed e) := by
  refine ⟨fun _ a h => ⟨a, h, rfl⟩, fun eventId h => ?_⟩
  simp only [AccountsDb.isEventProcessed, AccountsDb.findProcessedEvent,
    AccountsDb.markEventProcessed, lookup_append_singleton] at h ⊢
  simp [h]

theorem Extends.trans {db'' : AccountsDb} (h : Extends db db') (h' : Extends db' db'') :
    Extends db db'' := by
  refine ⟨fun id a ha => ?_, fun eventId he => h'.events _ (h.events _ he)⟩
  obtain ⟨a', ha', howner⟩ := h.accounts id a ha
  obtain ⟨a'', ha'', howner'⟩ := h'.accounts id a' ha'
  exact ⟨a'', ha'', howner'.trans howner⟩

theorem extends_committed {G : TradeExecutedEvent → AccountsDb → Prop} (hdb : WellFormed db)
    (h : Committed G db db') : Extends db db' := by
  cases h with
  | opened => exact extends_insertAccount
  | mutated hkey hprepared =>
    rw [commit_eq (hprepared.wellFormed hdb) (hprepared.findById hdb)]
    cases hprepared with
    | found => exact extends_adjust
    | opened => exact extends_insertAccount.trans extends_adjust
  | settled hs =>
    obtain ⟨f, -, -, heq⟩ := hs.commit_eq hdb
    rw [heq]
    exact extends_adjust.trans extends_markEventProcessed

/-! ### The invariant of a process -/

/-- A call has locked the account it changes, or the index entries of the one it has
inserted. -/
inductive Secured (p : ℕ) (s : Shared) (m : BalanceMutation) (params : BalanceParams) :
    Account → Bool → Prop
  | found {account : Account} (hlock : s.locks (.account account.id) = some p)
      (hrow : s.store.findById account.id = some account)
      (howner : account.owner = (params.userId, params.currency)) :
      Secured p s m params account false
  | opened {newId : Uuid} (hlock : s.locks (.account newId) = some p)
      (hindex : s.locks (.owner params.userId params.currency) = some p)
      (hid : s.store.findById newId = none)
      (hmissing : s.store.findByUserAndCurrency params.userId params.currency = none)
      (hopens : m.opensAccount = true) :
      Secured p s m params (.zero newId params.userId params.currency) true

/-- The guard of the update, which an account of the same transaction need not pass. -/
def Passed (m : BalanceMutation) (params : BalanceParams) (account : Account) (opened : Bool) :
    Prop := opened = false → m.refusal account params.amount = none

def CallInvariant (p : ℕ) (s : Shared) (m : BalanceMutation) (params : BalanceParams) :
    CallProgress → Prop
  | .missing => m.opensAccount = true
  | .held account opened => Secured p s m params account opened
  | .updated account opened =>
    Secured p s m params account opened ∧ Passed m params account opened
  | .written account opened =>
    Secured p s m params account opened ∧ Passed m params account opened ∧
      s.locks (.idempotencyKey params.idempotencyKey) = some p ∧
      s.store.findLedgerByIdempotencyKey params.idempotencyKey = none
  | .returning result => ∀ a, result ≠ .ok a
  | _ => True

/-- The rows locked so far are those of the first ids in lock order. -/
def LockedSoFar (p : ℕ) (s : Shared) (ids : Participant → Uuid) (rest : List Uuid)
    (rows : List Account) : Prop :=
  ∃ before, before ++ rest = lockOrder ids ∧ rows = before.filterMap s.store.findById ∧
    ∀ id ∈ before, s.locks (.account id) = some p

def SettlementInvariant (p : ℕ) (s : Shared) (envelope : DomainEventEnvelope)
    (trade : TradeExecutedEvent) : SettlementProgress → Prop
  | .finding lookups => ∀ q id, lookups q = .found id →
      ∃ a, s.store.findById id = some a ∧ a.owner = trade.owner q
  | .began ids => Owned trade ids s.store
  | .locking ids rest rows => Owned trade ids s.store ∧ LockedSoFar p s ids rest rows
  | .written ids writes => Owned trade ids s.store ∧
      (∀ q, s.locks (.account (ids q)) = some p) ∧
      settlementWrites trade ids (selectLocked ids s.store) = some writes
  | .marked ids writes => Owned trade ids s.store ∧
      (∀ q, s.locks (.account (ids q)) = some p) ∧
      settlementWrites trade ids (selectLocked ids s.store) = some writes ∧
      s.locks (.event envelope.eventId) = some p ∧
      s.store.findProcessedEvent envelope.eventId = none
  | .done .settled => (∃ ids, Owned trade ids s.store) ∧
      s.store.isEventProcessed envelope.eventId = true
  | _ => True

/-- The invariant of one process. Every trade under way was accepted and satisfies `T`. -/
def ProcessInvariant (T : TradeExecutedEvent → Prop) (p : ℕ) (s : Shared) : Process → Prop
  | .idle => True
  | .dismissed _ => True
  | .calling op params progress => CallInvariant p s op.mutation params progress
  | .settling envelope trade progress =>
    T trade ∧ trade.buyerUserId ≠ trade.sellerUserId ∧
      SettlementInvariant p s envelope trade progress

/-! ### Steps of other processes -/

/-- What the steps of others leave a process with. -/
structure Undisturbed (q : ℕ) (s s' : Shared) : Prop where
  keeps : Keeps view q s s'
  extends_store : Extends s.store s'.store

theorem Undisturbed.findById (h : Undisturbed q s s') {id : Uuid}
    (hlock : s.locks (.account id) = some q) : s'.store.findById id = s.store.findById id :=
  Observation.account.inj (h.keeps.view_eq hlock)

theorem owned_extends {trade : TradeExecutedEvent} {ids : Participant → Uuid}
    (h : Extends db db') (ho : Owned trade ids db) : Owned trade ids db' := by
  intro q
  obtain ⟨a, ha, howner⟩ := ho q
  obtain ⟨a', ha', howner'⟩ := h.accounts _ a ha
  exact ⟨a', ha', howner'.trans howner⟩

theorem secured_undisturbed {m : BalanceMutation} {params : BalanceParams} {account : Account}
    {opened : Bool} (h : Undisturbed q s s') (hs : Secured q s m params account opened) :
    Secured q s' m params account opened := by
  cases hs with
  | found hlock hrow howner =>
    exact .found (h.keeps.locks_eq hlock) ((h.findById hlock).trans hrow) howner
  | opened hlock hindex hid hmissing hopens =>
    exact .opened (h.keeps.locks_eq hlock) (h.keeps.locks_eq hindex)
      ((h.findById hlock).trans hid) (present_none (h.keeps.view_eq hindex) hmissing) hopens

theorem selectLocked_undisturbed {ids : Participant → Uuid} (h : Undisturbed q s s')
    (hlock : ∀ participant, s.locks (.account (ids participant)) = some q) :
    selectLocked ids s'.store = selectLocked ids s.store := by
  apply List.filterMap_congr
  intro id hid
  obtain ⟨participant, rfl⟩ := mem_lockOrder.mp hid
  exact h.findById (hlock participant)

theorem callInvariant_undisturbed {m : BalanceMutation} {params : BalanceParams}
    {progress : CallProgress} (h : Undisturbed q s s')
    (hi : CallInvariant q s m params progress) : CallInvariant q s' m params progress := by
  cases progress with
  | held account opened => exact secured_undisturbed h hi
  | updated account opened => exact ⟨secured_undisturbed h hi.1, hi.2⟩
  | written account opened =>
    obtain ⟨hs, hpassed, hlock, hkey⟩ := hi
    exact ⟨secured_undisturbed h hs, hpassed, h.keeps.locks_eq hlock,
      present_none (h.keeps.view_eq hlock) hkey⟩
  | _ => exact hi

theorem settlementInvariant_undisturbed {envelope : DomainEventEnvelope}
    {trade : TradeExecutedEvent} {progress : SettlementProgress} (h : Undisturbed q s s')
    (hi : SettlementInvariant q s envelope trade progress) :
    SettlementInvariant q s' envelope trade progress := by
  cases progress with
  | finding lookups =>
    intro participant id hfound
    obtain ⟨a, ha, howner⟩ := hi participant id hfound
    obtain ⟨a', ha', howner'⟩ := h.extends_store.accounts id a ha
    exact ⟨a', ha', howner'.trans howner⟩
  | began ids => exact owned_extends h.extends_store hi
  | locking ids rest rows =>
    obtain ⟨ho, before, horder, rfl, hlock⟩ := hi
    refine ⟨owned_extends h.extends_store ho, before, horder, ?_, fun id hid =>
      h.keeps.locks_eq (hlock id hid)⟩
    apply List.filterMap_congr
    intro id hid
    exact (h.findById (hlock id hid)).symm
  | written ids writes =>
    obtain ⟨ho, hlock, hwrites⟩ := hi
    rw [← selectLocked_undisturbed h hlock] at hwrites
    exact ⟨owned_extends h.extends_store ho, fun q => h.keeps.locks_eq (hlock q), hwrites⟩
  | marked ids writes =>
    obtain ⟨ho, hlock, hwrites, hevent, hnew⟩ := hi
    rw [← selectLocked_undisturbed h hlock] at hwrites
    exact ⟨owned_extends h.extends_store ho, fun q => h.keeps.locks_eq (hlock q), hwrites,
      h.keeps.locks_eq hevent, present_none (h.keeps.view_eq hevent) hnew⟩
  | done outcome =>
    cases outcome with
    | settled =>
      obtain ⟨⟨ids, ho⟩, hprocessed⟩ := hi
      exact ⟨⟨ids, owned_extends h.extends_store ho⟩, h.extends_store.events _ hprocessed⟩
    | _ => exact hi
  | skipping => exact hi

theorem processInvariant_undisturbed {T : TradeExecutedEvent → Prop} {l : Process}
    (h : Undisturbed q s s') (hi : ProcessInvariant T q s l) : ProcessInvariant T q s' l := by
  cases l with
  | calling op params progress => exact callInvariant_undisturbed h hi
  | settling envelope trade progress =>
    exact ⟨hi.1, hi.2.1, settlementInvariant_undisturbed h hi.2.2⟩
  | _ => exact hi

end EtherTrade.AccountsTransactionInvariants
