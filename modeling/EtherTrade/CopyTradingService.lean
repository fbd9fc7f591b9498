import EtherTrade.CopyTradingSchema
import EtherTrade.InterleavedProcesses
import EtherTrade.OrdersTransactions

/-!
# Subscriptions to masters

`createSubscription`, `cancelSubscription` and `getMasterOrFollowerBalance` as interleaved
processes, one statement, Valkey command or call at a time. Their two writes are statements
of their own. Any of them may fail, also after it took effect. An error of Valkey is passed
over, and one of the accounts service reads as a balance of zero.

Allocations are texts of digits with at most eight decimals, which is what the gateway lets
through, and numbers are in units of the last place. Balances of the accounts service are
not negative.
-/

namespace EtherTrade.CopyTradingService

open DecimalNumbers KeyedRows AccountsSchema OrdersSchema CopyTradingSchema
open InterleavedProcesses StatusCodes
open OrdersTransactions (Failure)

namespace CopyTradingErrors

def masterNotFound (masterId : Uuid) : String :=
  "Master trader with ID \"" ++ masterId ++ "\" was not found"

def insufficientDeposit (minDeposit : String) : String :=
  "Allocated balance cannot be less than minimum deposit of " ++ minDeposit

def subscriptionAlreadyExists (masterId : Uuid) : String :=
  "Active subscription to master \"" ++ masterId ++ "\" already exists"

def subscriptionNotFound (subscriptionId : Uuid) : String :=
  "Subscription with ID \"" ++ subscriptionId ++ "\" was not found"

def allocationExceedsBalance (requested available : String) : String :=
  "Total active allocations plus requested " ++ requested ++
    " exceeds available balance of " ++ available

end CopyTradingErrors

def masterBalanceCacheTtlMs : ℕ := 5000

/-- In hundredths. -/
def maxSlippagePercentDefault : ℕ := 100

/-! ### The store -/

structure CachedBalance where
  available : ℕ
  expiresAt : ℕ
  deriving DecidableEq, Repr

/-- `balances` are the available balances in the accounts service. -/
structure ServiceStore where
  masters : List MasterTrader
  db : CopyTradingDb
  balances : Uuid → ℕ
  cache : Uuid → Option CachedBalance
  now : ℕ

/-- A text of digits, and the number it stands for. -/
structure DecimalText where
  text : String
  units : ℕ
  deriving DecidableEq, Repr

structure CreateSubscriptionRequest where
  followerUserId : Uuid
  masterId : Uuid
  allocatedBalance : DecimalText
  maxSlippagePercent : Option ℕ
  deriving DecidableEq, Repr

structure CancelSubscriptionRequest where
  subscriptionId : Uuid
  followerUserId : Uuid
  deriving DecidableEq, Repr

/-! ### Progress of a call -/

/-- `getMasterOrFollowerBalance`. -/
inductive Balancing where
  | reading
  | fetching
  | caching (available : ℕ)
  deriving DecidableEq, Repr

inductive Creating where
  | finding
  | checking
  | balancing (existingSub : Option CopySubscription) (progress : Balancing)
  | allocating (existingSub : Option CopySubscription) (availableUsdt : ℕ)
  | writing (existingSub : Option CopySubscription)
  | incrementing (subscription : CopySubscription)
  | returned (subscription : CopySubscription)
  | thrown (failure : Failure)
  deriving DecidableEq, Repr

inductive Cancelling where
  | finding
  | terminating (sub : CopySubscription)
  | decrementing (sub updated : CopySubscription)
  | returned (sub : CopySubscription)
  | thrown (failure : Failure)
  deriving DecidableEq, Repr

/-- A call. The balance of a master is also asked for by replication. -/
inductive Process where
  | idle
  | creating (request : CreateSubscriptionRequest) (progress : Creating)
  | cancelling (request : CancelSubscriptionRequest) (progress : Cancelling)
  | balancing (userId : Uuid) (progress : Balancing)
  | answered (available : ℕ)
  deriving DecidableEq, Repr

/-- What a process can do: start as a call, run its next statement, command or call, insert
a row with a new id, fail, or write without learning of it. Masters register, balances
change and time passes. -/
inductive Action where
  | createSubscription (request : CreateSubscriptionRequest)
  | cancelSubscription (request : CancelSubscriptionRequest)
  | getMasterOrFollowerBalance (userId : Uuid)
  | statement
  | unacknowledged
  | insert (newId : Uuid)
  | insertUnacknowledged (newId : Uuid)
  | fail
  | registerMaster (id userId : Uuid) (minDeposit : ℤ)
  | setBalance (userId : Uuid) (available : ℕ)
  | passTime (ms : ℕ)
  deriving DecidableEq, Repr

/-! ### Queries -/

section Queries

variable (db : CopyTradingDb)

def findById (subscriptionId : Uuid) : Option CopySubscription :=
  lookup CopySubscription.id db.copySubscriptions subscriptionId

def findByFollowerAndMaster (followerUserId masterId : Uuid) : Option CopySubscription :=
  lookup CopySubscription.follows db.copySubscriptions (followerUserId, masterId)

def findActiveByFollower (followerUserId : Uuid) : List CopySubscription :=
  db.copySubscriptions.filter fun row =>
    row.followerUserId = followerUserId ∧ row.status = .active

/-- What the active subscriptions of a follower are allocated. -/
def activeAllocation (followerUserId : Uuid) : ℤ :=
  ((findActiveByFollower db followerUserId).map CopySubscription.allocatedBalance).sum

/-- The same without the subscription that is reactivated. -/
def currentAllocated (followerUserId : Uuid) (existingSub : Option CopySubscription) : ℤ :=
  (((findActiveByFollower db followerUserId).filter fun sub =>
    existingSub.all fun existing => sub.id ≠ existing.id).map CopySubscription.allocatedBalance).sum

end Queries

variable (s : ServiceStore)

def findMaster (masterId : Uuid) : Option MasterTrader :=
  lookup MasterTrader.id s.masters masterId

/-- `GREATEST(0, total_copiers + delta)`. -/
def incrementCopiers (masterId : Uuid) (delta : ℤ) : ServiceStore :=
  { s with
    masters := s.masters.map fun master =>
      if master.id = masterId then { master with totalCopiers := max 0 (master.totalCopiers + delta) }
      else master }

def cachedBalance (userId : Uuid) : Option ℕ :=
  ((s.cache userId).filter fun entry => s.now < entry.expiresAt).map CachedBalance.available

def cacheBalance (userId : Uuid) (available : ℕ) : ServiceStore :=
  { s with
    cache := Function.update s.cache userId
      (some ⟨available, s.now + masterBalanceCacheTtlMs⟩) }

def setDb (db : CopyTradingDb) : ServiceStore := { s with db }

/-! ### Calls -/

/-- The next state of `getMasterOrFollowerBalance`, or its answer. -/
def balanceStep (userId : Uuid) : Balancing → Action → Option (ServiceStore × (Balancing ⊕ ℕ))
  | .reading, .statement =>
    match cachedBalance s userId with
    | some cached => some (s, .inr cached)
    | none => some (s, .inl .fetching)
  | .reading, .fail => some (s, .inl .fetching)
  | .fetching, .statement => some (s, .inl (.caching (s.balances userId)))
  | .fetching, .fail => some (s, .inr 0)
  | .caching available, .statement => some (cacheBalance s userId available, .inr available)
  | .caching available, .fail => some (s, .inr available)
  | _, _ => none

section Create

variable (request : CreateSubscriptionRequest)

def rejected (code : ℕ) (message : String) : Creating := .thrown (.rpc ⟨code, message⟩)

def maxSlippage : ℕ := request.maxSlippagePercent.getD maxSlippagePercentDefault

/-- The columns can hold the numbers of the request. -/
def fits : Bool := request.allocatedBalance.units < 10 ^ 28 && maxSlippage request < 10 ^ 5

def newSubscription (newId : Uuid) : CopySubscription where
  id := newId
  followerUserId := request.followerUserId
  masterId := request.masterId
  allocatedBalance := request.allocatedBalance.units
  maxSlippagePercent := maxSlippage request
  status := .active

/-- The write of a subscription, and the row that it returns. -/
def writeSubscription : Option CopySubscription → Action → Option (CopyTradingDb × CopySubscription)
  | none, .insert newId | none, .insertUnacknowledged newId =>
    if fits request then
      (s.db.createSubscription (newSubscription request newId)).map fun db =>
        (db, newSubscription request newId)
    else none
  | some existingSub, .statement | some existingSub, .unacknowledged =>
    if fits request then
      let db := s.db.reactivateSubscription existingSub.id request.allocatedBalance.units
        (maxSlippage request)
      (findById db existingSub.id).map fun row => (db, row)
    else none
  | _, _ => none

/-- The answer of a statement reaches the call. -/
def acknowledged : Action → Bool
  | .unacknowledged => false
  | .insertUnacknowledged _ => false
  | _ => true

def createStep : Creating → Action → Option (ServiceStore × Creating)
  | .finding, .statement =>
    match (findMaster s request.masterId).filter MasterTrader.isActive with
    | none =>
      some (s, rejected HttpStatus.notFound (CopyTradingErrors.masterNotFound request.masterId))
    | some master =>
      if (request.allocatedBalance.units : ℤ) < master.minDeposit then
        some (s, rejected HttpStatus.badRequest
          (CopyTradingErrors.insufficientDeposit (columnText master.minDeposit)))
      else some (s, .checking)
  | .checking, .statement =>
    let existingSub := findByFollowerAndMaster s.db request.followerUserId request.masterId
    if existingSub.map CopySubscription.status = some .active then
      some (s, rejected HttpStatus.conflict
        (CopyTradingErrors.subscriptionAlreadyExists request.masterId))
    else some (s, .balancing existingSub .reading)
  | .balancing existingSub progress, action =>
    (balanceStep s request.followerUserId progress action).map fun r =>
      match r.2 with
      | .inl next => (r.1, .balancing existingSub next)
      | .inr availableUsdt => (r.1, .allocating existingSub availableUsdt)
  | .allocating existingSub availableUsdt, .statement =>
    let totalRequested := currentAllocated s.db request.followerUserId existingSub +
      request.allocatedBalance.units
    if (availableUsdt : ℤ) < totalRequested then
      some (s, rejected HttpStatus.badRequest (CopyTradingErrors.allocationExceedsBalance
        request.allocatedBalance.text (columnText availableUsdt)))
    else some (s, .writing existingSub)
  | .incrementing subscription, .statement =>
    some (incrementCopiers s request.masterId 1, .returned subscription)
  | .incrementing _, .unacknowledged =>
    some (incrementCopiers s request.masterId 1, .thrown .infrastructure)
  | .returned _, _ => none
  | .thrown _, _ => none
  | _, .fail => some (s, .thrown .infrastructure)
  | .writing existingSub, action =>
    (writeSubscription s request existingSub action).map fun r =>
      (setDb s r.1, if acknowledged action then .incrementing r.2 else .thrown .infrastructure)
  | _, _ => none

end Create

section Cancel

variable (request : CancelSubscriptionRequest)

/-- The update of a status, and the row that it returns. -/
def terminate (sub : CopySubscription) : CopyTradingDb × Option CopySubscription :=
  let db := s.db.updateStatus sub.id .terminated
  (db, findById db sub.id)

def cancelStep : Cancelling → Action → Option (ServiceStore × Cancelling)
  | .finding, .statement =>
    match (findById s.db request.subscriptionId).filter fun sub =>
      sub.followerUserId = request.followerUserId with
    | none => some (s, .thrown (.rpc ⟨HttpStatus.notFound,
        CopyTradingErrors.subscriptionNotFound request.subscriptionId⟩))
    | some sub => some (s, if sub.status = .terminated then .returned sub else .terminating sub)
  | .terminating sub, .statement =>
    (terminate s sub).2.map fun updated =>
      (setDb s (terminate s sub).1, .decrementing sub updated)
  | .terminating sub, .unacknowledged =>
    some (setDb s (terminate s sub).1, .thrown .infrastructure)
  | .decrementing sub updated, .statement =>
    some (incrementCopiers s sub.masterId (-1), .returned updated)
  | .decrementing sub _, .unacknowledged =>
    some (incrementCopiers s sub.masterId (-1), .thrown .infrastructure)
  | .returned _, _ => none
  | .thrown _, _ => none
  | _, .fail => some (s, .thrown .infrastructure)
  | _, _ => none

end Cancel

def registerMaster (id userId : Uuid) (minDeposit : ℤ) : Option ServiceStore :=
  (createMaster s.masters ⟨id, userId, minDeposit, 0, true⟩).map fun masters => { s with masters }

/-- One step of a process. Each process handles one call. -/
def step : Process → Action → Option (ServiceStore × Process)
  | .idle, .createSubscription request => some (s, .creating request .finding)
  | .idle, .cancelSubscription request => some (s, .cancelling request .finding)
  | .idle, .getMasterOrFollowerBalance userId => some (s, .balancing userId .reading)
  | .idle, .registerMaster id userId minDeposit =>
    (registerMaster s id userId minDeposit).map fun s' => (s', .idle)
  | .idle, .setBalance userId available =>
    some ({ s with balances := Function.update s.balances userId available }, .idle)
  | .idle, .passTime ms => some ({ s with now := s.now + ms }, .idle)
  | .creating request progress, action =>
    (createStep s request progress action).map fun r => (r.1, .creating request r.2)
  | .cancelling request progress, action =>
    (cancelStep s request progress action).map fun r => (r.1, .cancelling request r.2)
  | .balancing userId progress, action =>
    (balanceStep s userId progress action).map fun r =>
      match r.2 with
      | .inl next => (r.1, .balancing userId next)
      | .inr available => (r.1, .answered available)
  | _, _ => none

abbrev ServiceConfig := Config ServiceStore Process

def copyTradingSystem : System ServiceStore Process Action := ⟨fun _ => step⟩

/-- No masters, subscriptions or balances, and no call under way. -/
def initial : ServiceConfig := ⟨⟨[], .empty, fun _ => 0, fun _ => none, 0⟩, fun _ => .idle⟩

end EtherTrade.CopyTradingService
