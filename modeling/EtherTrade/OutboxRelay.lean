import Mathlib.Data.List.Nodup
import EtherTrade.AccountsSchema
import EtherTrade.InterleavedProcesses
import EtherTrade.KeyedRows
import EtherTrade.ResourceLocks

/-!
# Outbox relay workers and retention passes

The outbox of a service, the workers that relay it to the broker and the passes that
delete what is old, as interleaved processes. The orders and the transfers service have
one each, of their own kinds of events.

A worker works in one transaction: it locks pending rows and skips those that others
hold, sends their events in one batch, and marks the rows. The broker is not part of the
transaction. The server may end the transaction of a worker that goes on, and any process
may stop after any step. What a worker writes on its way out of a failed batch is rolled
back with the transaction.
-/

namespace EtherTrade.OutboxRelay

open AccountsSchema KeyedRows InterleavedProcesses ResourceLocks

universe u

inductive OutboxStatus where
  | pending
  | published
  | failed
  deriving DecidableEq, Repr

/-- A row of `outbox_events`. An attempt that fails leaves no trace in it. -/
structure OutboxRow (π : Type u) where
  id : Uuid
  event : π
  status : OutboxStatus
  createdAt : ℕ
  deriving DecidableEq, Repr

/-- What a call of `sendBatch` brought to the broker. One that is not acknowledged has
thrown; some of its events may have arrived. -/
structure Delivery (π : Type u) where
  events : List (OutboxRow π)
  acknowledged : Bool
  deriving DecidableEq, Repr

structure OutboxStore (π : Type u) where
  rows : List (OutboxRow π)
  deliveries : List (Delivery π)

/-- A worker locks the rows it relays. -/
abbrev Shared (π : Type u) := Locked (OutboxStore π) Uuid

/-- How far a worker is with a batch; each names what it does next. -/
inductive Phase (π : Type u) where
  | fetching
  | sending (pendingEvents : List (OutboxRow π))
  | marking (pendingEvents : List (OutboxRow π))
  | recordingRetry (rest : List (OutboxRow π))
  | committing (pendingEvents : List (OutboxRow π))
  deriving DecidableEq, Repr

/-- A worker is connected as long as its transaction lasts. -/
inductive Process (π : Type u) where
  | idle
  | relaying (phase : Phase π) (connected : Bool)
  | cleaning (cutoffDate : ℕ)
  deriving DecidableEq, Repr

/-- What a process can do: commit a transaction that inserts events, begin a batch, fetch
its rows, send, run its next statement, fail or stop, lose its transaction, begin a
retention pass or delete some rows. -/
inductive Action (π : Type u) where
  | insertMany (events : List (OutboxRow π))
  | processBatch
  | fetchPendingBatch (pendingEvents : List (OutboxRow π))
  | sendBatch (delivery : Delivery π)
  | statement
  | abort
  | disconnect
  | cleanPublishedEvents (now : ℕ)
  | deletePublishedEventsOlderThan (ids : List Uuid)
  deriving DecidableEq, Repr

def batchSize : ℕ := 50

def retentionMs : ℕ := 48 * 60 * 60 * 1000

def retentionBatchSize : ℕ := 1000

variable {π : Type u} [DecidableEq π] (p : ℕ) (s : Shared π)

/-- The rows that a worker can fetch: pending, and locked by nobody. -/
def fetchable (s : Shared π) : List (OutboxRow π) :=
  s.store.rows.filter fun r => r.status = .pending ∧ s.locks r.id = none

/-- `SELECT … WHERE status = 'PENDING' ORDER BY created_at LIMIT … FOR UPDATE SKIP LOCKED`
may return these rows: any order of rows of one time. -/
def IsPendingBatch (s : Shared π) (pendingEvents : List (OutboxRow π)) : Prop :=
  (∀ r ∈ pendingEvents, r ∈ fetchable s) ∧ (pendingEvents.map OutboxRow.id).Nodup ∧
    pendingEvents.length = min batchSize (fetchable s).length ∧
    pendingEvents.Pairwise (fun r r' => r.createdAt ≤ r'.createdAt) ∧
    ∀ r ∈ pendingEvents, ∀ r' ∈ fetchable s, r' ∉ pendingEvents → r.createdAt ≤ r'.createdAt

instance (pendingEvents : List (OutboxRow π)) : Decidable (IsPendingBatch s pendingEvents) :=
  inferInstanceAs (Decidable (_ ∧ _ ∧ _ ∧ _ ∧ _))

/-- The rows that a statement of the retention pass may delete. It deletes fewer than it
could when another pass is at the same rows. -/
def IsExpiredBatch (cutoffDate : ℕ) (rows : List (OutboxRow π)) (ids : List Uuid) : Prop :=
  let expired := rows.filter fun r => r.status = .published ∧ r.createdAt < cutoffDate
  ids.Nodup ∧ (∀ id ∈ ids, id ∈ expired.map OutboxRow.id) ∧
    ids.length ≤ retentionBatchSize

omit [DecidableEq π] in
instance (cutoffDate : ℕ) (rows : List (OutboxRow π)) (ids : List Uuid) :
    Decidable (IsExpiredBatch cutoffDate rows ids) :=
  inferInstanceAs (Decidable (_ ∧ _ ∧ _))

def lockRows (rows : List (OutboxRow π)) : LockTable Uuid :=
  s.locks.acquireAll p (rows.map OutboxRow.id)

/-- The end of a transaction without its writes. -/
def rollback : Shared π := ⟨s.store, s.locks.release p⟩

def markAsPublished (ids : List Uuid) (rows : List (OutboxRow π)) : List (OutboxRow π) :=
  rows.map fun r => if r.id ∈ ids then { r with status := .published } else r

/-- The end of a transaction that has marked its rows. -/
def commit (pendingEvents : List (OutboxRow π)) : Shared π :=
  ⟨{ s.store with rows := markAsPublished (pendingEvents.map OutboxRow.id) s.store.rows },
    s.locks.release p⟩

def record (delivery : Delivery π) : Shared π :=
  ⟨{ s.store with deliveries := s.store.deliveries ++ [delivery] }, s.locks⟩

/-- One step of a worker's batch. Statements need the transaction, sending does not. -/
def relayingStep : Phase π → Bool → Action π → Option (Shared π × Process π)
  | .fetching, true, .fetchPendingBatch pendingEvents =>
    if IsPendingBatch s pendingEvents then
      if pendingEvents = [] then some (rollback p s, .idle)
      else some (⟨s.store, lockRows p s pendingEvents⟩, .relaying (.sending pendingEvents) true)
    else none
  | .sending pendingEvents, connected, .sendBatch delivery =>
    if delivery.acknowledged then
      if delivery.events = pendingEvents then
        some (record s delivery, .relaying (.marking pendingEvents) connected)
      else none
    else if delivery.events.Sublist pendingEvents then
      some (record s delivery, .relaying (.recordingRetry pendingEvents) connected)
    else none
  | .marking pendingEvents, true, .statement =>
    some (s, .relaying (.committing pendingEvents) true)
  | .recordingRetry (_ :: rest), true, .statement =>
    some (s, .relaying (.recordingRetry rest) true)
  | .recordingRetry [], true, .statement => some (rollback p s, .idle)
  | .committing pendingEvents, true, .statement => some (commit p s pendingEvents, .idle)
  | phase, true, .disconnect => some (rollback p s, .relaying phase false)
  | _, _, .abort => some (rollback p s, .idle)
  | _, _, _ => none

def step : Process π → Action π → Option (Shared π × Process π)
  | .idle, .insertMany events =>
    if (events.map OutboxRow.id).Nodup ∧ ∀ r ∈ events, r.status = .pending ∧
        (lookup OutboxRow.id s.store.rows r.id).isNone then
      some (⟨{ s.store with rows := s.store.rows ++ events }, s.locks⟩, .idle)
    else none
  | .idle, .processBatch => some (s, .relaying .fetching true)
  | .idle, .cleanPublishedEvents now => some (s, .cleaning (now - retentionMs))
  | .relaying phase connected, action => relayingStep p s phase connected action
  | .cleaning cutoffDate, .deletePublishedEventsOlderThan ids =>
    if IsExpiredBatch cutoffDate s.store.rows ids ∧ ∀ id ∈ ids, s.locks.Available p id then
      some (⟨{ s.store with rows := s.store.rows.filter fun r => r.id ∉ ids }, s.locks⟩,
        if ids.length = retentionBatchSize then .cleaning cutoffDate else .idle)
    else none
  | .cleaning _, .abort => some (s, .idle)
  | _, _ => none

abbrev RelayConfig (π : Type u) := Config (Shared π) (Process π)

def relaySystem (π : Type u) [DecidableEq π] : System (Shared π) (Process π) (Action π) := ⟨step⟩

/-- An empty outbox and nothing under way. -/
def initial : RelayConfig π := ⟨⟨⟨[], []⟩, LockTable.free⟩, fun _ => .idle⟩

end EtherTrade.OutboxRelay
