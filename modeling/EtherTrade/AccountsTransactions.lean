import EtherTrade.InterleavedProcesses
import EtherTrade.ResourceLocks
import EtherTrade.TradeSettlement

/-!
# Concurrent transactions on the accounts database

Balance calls and settlement deliveries as interleaved processes, one statement at a
time, under READ COMMITTED. A statement reads what is committed and what its own
transaction wrote; rows selected `FOR UPDATE` and index entries of uncommitted rows are
locked until the transaction ends, and a statement that needs a locked one waits. What
a transaction wrote stays in its local state until it commits. Any transaction may
abort, and any process may stop, after any statement.

The statements of a settlement between locking its accounts and marking its event
touch rows it has locked and nothing else; they are one step here.
-/

namespace EtherTrade.AccountsTransactions

open AccountsSchema BalanceMutations TradeSettlement InterleavedProcesses ResourceLocks

/-- What a transaction can lock: a row of `accounts` with its primary key, and entries of
the unique indexes on users and currencies, idempotency keys and event ids. -/
inductive Resource where
  | account (id : Uuid)
  | owner (userId : Uuid) (currency : Currency)
  | idempotencyKey (key : String)
  | event (eventId : Uuid)
  deriving DecidableEq, Repr

abbrev Shared := Locked AccountsDb Resource

/-- How far a balance call is. The account is the row as it was locked or inserted;
`opened` tells an inserted one. -/
inductive CallProgress where
  | begun
  | replaying (accountId : Uuid)
  | checked
  | missing
  | held (account : Account) (opened : Bool)
  | updated (account : Account) (opened : Bool)
  | written (account : Account) (opened : Bool)
  | returning (result : BalanceMutationResult)
  | returned (result : BalanceMutationResult)
  | failed
  deriving DecidableEq, Repr

/-- How far `findOrCreate` is for one participant. -/
inductive Lookup where
  | searching
  | missing
  | refused
  | found (accountId : Uuid)
  | failed
  deriving DecidableEq, Repr

/-- How far the delivery of a trade is. -/
inductive SettlementProgress where
  | finding (lookups : Participant → Lookup)
  | began (accountIds : Participant → Uuid)
  | locking (accountIds : Participant → Uuid) (rest : List Uuid) (lockedAccounts : List Account)
  | written (accountIds : Participant → Uuid) (writes : SettlementWrites)
  | marked (accountIds : Participant → Uuid) (writes : SettlementWrites)
  | skipping
  | done (outcome : HandleOutcome)

inductive Process where
  | idle
  | calling (op : BalanceOperation) (params : BalanceParams) (progress : CallProgress)
  | dismissed (outcome : HandleOutcome)
  | settling (envelope : DomainEventEnvelope) (trade : TradeExecutedEvent)
      (progress : SettlementProgress)

/-- What a process can do: start as a call or a delivery, run its next statement, insert
a missing account, advance one of the parallel `findOrCreate` calls, or fail. -/
inductive Action where
  | call (op : BalanceOperation) (params : BalanceParams)
  | deliver (payload : KafkaBatchConsumerPayload)
  | statement
  | insertAccount (newId : Uuid)
  | findOrCreate (participant : Participant) (newId : Uuid)
  | abort
  deriving DecidableEq, Repr

variable (p : ℕ) (s : Shared)

/-- The end of a transaction without its writes. -/
def rollback : Shared := ⟨s.store, s.locks.release p⟩

def commit (store : AccountsDb) : Shared := ⟨store, s.locks.release p⟩

def takeLock (r : Resource) : Shared := ⟨s.store, s.locks.acquire p r⟩

/-- The unique indexes of `accounts` let an insert through when no uncommitted row of
another transaction is in its way. -/
def CanInsertAccount (account : Account) : Prop :=
  s.locks.Available p (.owner account.userId account.currency) ∧
    s.locks.Available p (.account account.id)

instance (account : Account) : Decidable (CanInsertAccount p s account) :=
  inferInstanceAs (Decidable (_ ∧ _))

/-- Whether a committed row already has the user and currency, or the id. -/
def accountConflict (db : AccountsDb) (account : Account) : Bool :=
  (db.findByUserAndCurrency account.userId account.currency).isSome ||
    (db.findById account.id).isSome

/-- The balance mutations, statement by statement. A unique violation aborts the
transaction: the statement in its `catch` block is refused and the call throws. -/
def callStep (m : BalanceMutation) (params : BalanceParams) :
    CallProgress → Action → Option (Shared × CallProgress)
  | .begun, .statement =>
    match checkReplay m.expectedType params s.store with
    | .unused => some (s, .checked)
    | .mismatch => some (s, .returning .idempotencyPayloadMismatch)
    | .replay accountId => some (s, .replaying accountId)
  | .replaying accountId, .statement =>
    some (s, .returning (readReplayedAccount accountId s.store))
  | .checked, .statement =>
    match s.store.findByUserAndCurrency params.userId params.currency with
    | none => some (s, if m.opensAccount then .missing else .returning .notFound)
    | some account =>
      if s.locks.Available p (.account account.id) then
        some (takeLock p s (.account account.id), .held account false)
      else none
  | .missing, .insertAccount newId =>
    let account := Account.zero newId params.userId params.currency
    if CanInsertAccount p s account then
      if accountConflict s.store account then some (rollback p s, .failed)
      else
        some (takeLock p (takeLock p s (.owner account.userId account.currency)) (.account account.id),
          .held account true)
    else none
  | .held account opened, .statement =>
    match if opened then none else m.refusal account params.amount with
    | some refused => some (s, .returning refused)
    | none => some (s, .updated account opened)
  | .updated account opened, .statement =>
    if s.locks.Available p (.idempotencyKey params.idempotencyKey) then
      if (s.store.findLedgerByIdempotencyKey params.idempotencyKey).isSome then
        some (rollback p s, .failed)
      else some (takeLock p s (.idempotencyKey params.idempotencyKey), .written account opened)
    else none
  | .written account opened, .statement =>
    let prepared := if opened then s.store.insertAccount account else s.store
    some (commit p s (m.commit params account prepared),
      .returned (.ok (m.updatedAccount params account)))
  | .returning result, .statement => some (rollback p s, .returned result)
  | .returned _, .abort => none
  | .failed, .abort => none
  | _, .abort => some (rollback p s, .failed)
  | _, _ => none

/-- `findOrCreate` outside any transaction: each statement commits by itself. -/
def lookupStep (owner : Uuid × Currency) (newId : Uuid) : Lookup → Option (Shared × Lookup)
  | .searching =>
    match s.store.findByUserAndCurrency owner.1 owner.2 with
    | some account => some (s, .found account.id)
    | none => some (s, .missing)
  | .missing =>
    let account := Account.zero newId owner.1 owner.2
    if CanInsertAccount p s account then
      if accountConflict s.store account then some (s, .refused)
      else some (⟨s.store.insertAccount account, s.locks⟩, .found account.id)
    else none
  | .refused =>
    match s.store.findByUserAndCurrency owner.1 owner.2 with
    | some account => some (s, .found account.id)
    | none => some (s, .failed)
  | .found _ => none
  | .failed => none

/-- The id a finished lookup found. -/
def Lookup.accountId : Lookup → Option Uuid
  | .found accountId => some accountId
  | _ => none

/-- The ids of the four accounts, when every lookup has found its own. -/
def foundAccountIds (lookups : Participant → Lookup) : Option (Participant → Uuid) := do
  let buyerQuote ← (lookups .buyerQuote).accountId
  let buyerBase ← (lookups .buyerBase).accountId
  let sellerQuote ← (lookups .sellerQuote).accountId
  let sellerBase ← (lookups .sellerBase).accountId
  return fun
    | .buyerQuote => buyerQuote
    | .buyerBase => buyerBase
    | .sellerQuote => sellerQuote
    | .sellerBase => sellerBase

/-- The first failed lookup, in the order of `Promise.all`. -/
def failedParticipant (lookups : Participant → Lookup) : Option Participant :=
  Participant.all.find? fun q => lookups q = .failed

/-- `handleMessage` of an accepted trade, statement by statement. -/
def settlementStep (envelope : DomainEventEnvelope) (trade : TradeExecutedEvent) :
    SettlementProgress → Action → Option (Shared × SettlementProgress)
  | .finding lookups, .findOrCreate q newId =>
    (lookupStep p s (trade.owner q) newId (lookups q)).map fun r =>
      (r.1, .finding (Function.update lookups q r.2))
  | .finding lookups, .statement =>
    match failedParticipant lookups with
    | some q =>
      some (s, .done (.thrown (accountCreateFailed (trade.owner q).1 (trade.owner q).2)))
    | none => (foundAccountIds lookups).map fun accountIds => (s, .began accountIds)
  | .began accountIds, .statement =>
    if s.store.isEventProcessed envelope.eventId then some (s, .skipping)
    else some (s, .locking accountIds (lockOrder accountIds) [])
  | .locking accountIds (id :: rest) lockedAccounts, .statement =>
    match s.store.findById id with
    | none => some (s, .locking accountIds rest lockedAccounts)
    | some account =>
      if s.locks.Available p (.account id) then
        some (takeLock p s (.account id), .locking accountIds rest (lockedAccounts ++ [account]))
      else none
  | .locking accountIds [] lockedAccounts, .statement =>
    if Participant.all.all fun q =>
        (KeyedRows.lookup Account.id lockedAccounts (accountIds q)).isSome then
      match settlementWrites trade accountIds lockedAccounts with
      | none => some (rollback p s, .done .databaseError)
      | some writes => some (s, .written accountIds writes)
    else some (rollback p s, .done (.thrown (locksMissing trade)))
  | .written accountIds writes, .statement =>
    if s.locks.Available p (.event envelope.eventId) then
      if s.store.isEventProcessed envelope.eventId then
        some (rollback p s, .done .databaseError)
      else some (takeLock p s (.event envelope.eventId), .marked accountIds writes)
    else none
  | .marked _ writes, .statement =>
    some (commit p s (commitSettlement envelope writes s.store), .done .settled)
  | .skipping, .statement => some (rollback p s, .done .alreadyProcessed)
  | .done _, .abort => none
  | _, .abort => some (rollback p s, .done .databaseError)
  | _, _ => none

/-- One step of a process. Each process is one call or one delivery; a repeated call and a
redelivered message are processes of their own. -/
def step : Process → Action → Option (Shared × Process)
  | .idle, .call op params => some (s, .calling op params .begun)
  | .idle, .deliver payload =>
    match acceptMessage payload with
    | .inl outcome => some (s, .dismissed outcome)
    | .inr (envelope, trade) =>
      some (s, .settling envelope trade (.finding fun _ => .searching))
  | .calling op params progress, action =>
    (callStep p s op.mutation params progress action).map fun r =>
      (r.1, .calling op params r.2)
  | .settling envelope trade progress, action =>
    (settlementStep p s envelope trade progress action).map fun r =>
      (r.1, .settling envelope trade r.2)
  | _, _ => none

abbrev AccountsConfig := Config Shared Process

def accountsSystem : System Shared Process Action := ⟨step⟩

/-- An empty database and nothing under way. -/
def initial : AccountsConfig := ⟨⟨.empty, LockTable.free⟩, fun _ => .idle⟩

end EtherTrade.AccountsTransactions
