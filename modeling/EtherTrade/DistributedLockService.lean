import EtherTrade.AccountsSchema

/-!
# Follower locks

Valkey entries with a token and the time at which they expire. An entry is set only where
none is left, and deleted only by the token that set it.
-/

namespace EtherTrade.DistributedLockService

open AccountsSchema

structure LockEntry where
  token : Uuid
  expiresAt : ℕ
  deriving DecidableEq, Repr

abbrev LockEntries := String → Option LockEntry

variable (entries : LockEntries) (now : ℕ) (key : String)

/-- The entry of a key that has not expired. -/
def unexpired : Option LockEntry := (entries key).filter fun entry => now < entry.expiresAt

/-- `SET key token NX PX ttl`, if it answers `OK`. -/
def acquireLock (lockToken : Uuid) (ttlMs : ℕ) : Option LockEntries :=
  if (unexpired entries now key).isSome then none
  else some (Function.update entries key (some ⟨lockToken, now + ttlMs⟩))

/-- The script that deletes the entry of its owner. -/
def releaseLock (lockToken : Uuid) : LockEntries :=
  if (unexpired entries now key).map LockEntry.token = some lockToken then
    Function.update entries key none
  else entries

end EtherTrade.DistributedLockService
