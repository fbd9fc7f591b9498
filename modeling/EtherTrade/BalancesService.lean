import Mathlib.Data.List.DropRight
import EtherTrade.OrdersTransactions
import EtherTrade.SequentialRequests

/-!
# The balances service

`lockBalance` and `unlockBalance` as the orders service calls them: the request is
validated, the repository runs the mutation as one transaction, and its result is mapped
to an account or to an exception. Which texts are well-formed user ids is decided by a
library outside this repository and is a parameter here.
-/

namespace EtherTrade.BalancesService

open DecimalNumbers KeyedRows AccountsSchema BalanceMutations BalanceMutationCorrectness
open AccountsDbInvariants SequentialRequests StatusCodes
open OrdersTransactions (BalanceMethod BalanceRequest)

/-- An exception of the service, with the status code the exception filter gives it. -/
structure BalanceException where
  code : ℕ
  message : String
  errorCode : String
  deriving DecidableEq, Repr

/-- The enumeration's values, in its order. -/
def supportedCurrencies : List Currency := [.usdt, .usdc, .eth, .btc]

def defaultCurrency : Currency := .usdt

/-! ### Texts -/

/-- What `trim` takes away: white space and line terminators. -/
def isWhiteSpace (c : Char) : Bool :=
  c.toNat ∈ [9, 10, 11, 12, 13, 32, 160, 5760, 8232, 8233, 8239, 8287, 12288, 65279] ||
    (8192 ≤ c.toNat && c.toNat ≤ 8202)

def trim (text : String) : String :=
  String.ofList ((text.toList.dropWhile isWhiteSpace).rdropWhile isWhiteSpace)

theorem trim_eq_self {text : String} (h : ∀ char ∈ text.toList, isWhiteSpace char = false) :
    trim text = text := by
  have hdrop : text.toList.dropWhile isWhiteSpace = text.toList := by
    refine List.dropWhile_eq_self_iff.mpr fun hlength => ?_
    simp [h _ (List.getElem_mem hlength)]
  have hrdrop : text.toList.rdropWhile isWhiteSpace = text.toList := by
    refine List.rdropWhile_eq_self_iff.mpr fun hne => ?_
    simp [h _ (List.getLast_mem hne)]
  rw [trim, hdrop, hrdrop, String.ofList_toList]

/-- The upper case of a character, as far as it can be a letter of a currency code; the
long s is the one letter beyond ASCII that becomes one of them. -/
def upperCase (c : Char) : Char := if c.toNat = 383 then 'S' else c.toUpper

/-- `toFixed()` of an amount: no more decimals than it has. -/
def plainText (amount : Amount) : String :=
  let units := amount.units.toNat
  let digits := toString (units % 10 ^ 8)
  let places := (List.replicate (8 - digits.length) '0' ++ digits.toList).rdropWhile (· = '0')
  if places = [] then toString (units / 10 ^ 8)
  else toString (units / 10 ^ 8) ++ "." ++ String.ofList places

namespace BalancesErrors

def accountNotFound (userId : Uuid) (currency : Currency) : String :=
  "Account not found for user '" ++ userId ++ "' and currency '" ++ currency.code ++ "'"

def invalidUserId : String := "Invalid user ID format: must be a valid UUID"

def invalidAmount : String := "Amount must be a positive decimal number"

def insufficientAvailableBalance (available required : String) : String :=
  "Insufficient available balance: requested " ++ required ++ ", available " ++ available

def insufficientLockedBalance (locked required : String) : String :=
  "Insufficient locked balance: requested " ++ required ++ ", locked " ++ locked

def unsupportedCurrency (currency : String) : String :=
  "Unsupported currency '" ++ currency ++ "'. Supported currencies: " ++
    ", ".intercalate (supportedCurrencies.map Currency.code)

def idempotencyKeyRequired : String := "Idempotency key is required for balance mutations"

def idempotencyKeyPayloadMismatch : String :=
  "Idempotency key reused with different amount, currency, or operation type"

end BalancesErrors

namespace BalancesErrorCodes

def invalidUserId : String := "INVALID_USER_ID"

def invalidAmount : String := "INVALID_AMOUNT"

def unsupportedCurrency : String := "UNSUPPORTED_CURRENCY"

def accountNotFound : String := "ACCOUNT_NOT_FOUND"

def insufficientBalance : String := "INSUFFICIENT_BALANCE"

def insufficientLockedBalance : String := "INSUFFICIENT_LOCKED_BALANCE"

def idempotencyKeyRequired : String := "IDEMPOTENCY_KEY_REQUIRED"

def idempotencyKeyPayloadMismatch : String := "IDEMPOTENCY_KEY_PAYLOAD_MISMATCH"

end BalancesErrorCodes

/-! ### Validation -/

section Validation

variable (isValidUuid : String → Bool)

def validateUserId (userId : String) : Except BalanceException Uuid :=
  if userId = "" || !isValidUuid userId then
    .error ⟨GrpcStatus.invalidArgument, BalancesErrors.invalidUserId,
      BalancesErrorCodes.invalidUserId⟩
  else .ok userId

/-- A blank code stands for the default; the codes of the enumeration are normal already. -/
def normalizeCurrency : Currency → Except BalanceException Currency
  | .other code =>
    if trim code = "" then .ok defaultCurrency
    else
      match supportedCurrencies.find? fun currency =>
          currency.code = (trim code).map upperCase with
      | some currency => .ok currency
      | none => .error ⟨GrpcStatus.invalidArgument, BalancesErrors.unsupportedCurrency code,
          BalancesErrorCodes.unsupportedCurrency⟩
  | currency => .ok currency

/-- The pattern accepts no sign and no word, and zero is refused after it. -/
def validateAmount : NumericText → Except BalanceException Amount
  | .digits 0 (units + 1) => .ok ⟨(units + 1 : ℕ), Int.natCast_succ_pos units⟩
  | _ => .error ⟨GrpcStatus.invalidArgument, BalancesErrors.invalidAmount,
      BalancesErrorCodes.invalidAmount⟩

def requireIdempotencyKey (idempotencyKey : String) : Except BalanceException String :=
  if trim idempotencyKey = "" then
    .error ⟨GrpcStatus.invalidArgument, BalancesErrors.idempotencyKeyRequired,
      BalancesErrorCodes.idempotencyKeyRequired⟩
  else .ok (trim idempotencyKey)

/-- The checks of a request, in order, and what the repository is called with. -/
def validateRequest (request : BalanceRequest) : Except BalanceException BalanceParams := do
  let userId ← validateUserId isValidUuid request.userId
  let currency ← normalizeCurrency request.currency
  let amount ← validateAmount request.amount
  let idempotencyKey ← requireIdempotencyKey request.idempotencyKey
  let referenceId := trim request.referenceId
  return ⟨userId, currency, amount, idempotencyKey,
    if referenceId = "" then none else some referenceId⟩

end Validation

/-! ### The calls -/

/-- What a call ends with in place of an account: an exception, or a failed statement. -/
inductive BalanceFailure where
  | rpc (exception : BalanceException)
  | database
  deriving DecidableEq, Repr

def mapMutationResult (params : BalanceParams) :
    BalanceMutationResult → Except BalanceException Account
  | .ok account => .ok account
  | .idempotentReplay account => .ok account
  | .notFound => .error ⟨GrpcStatus.notFound,
      BalancesErrors.accountNotFound params.userId params.currency,
      BalancesErrorCodes.accountNotFound⟩
  | .insufficientAvailable available => .error ⟨GrpcStatus.failedPrecondition,
      BalancesErrors.insufficientAvailableBalance (columnText available) (plainText params.amount),
      BalancesErrorCodes.insufficientBalance⟩
  | .insufficientLocked locked => .error ⟨GrpcStatus.failedPrecondition,
      BalancesErrors.insufficientLockedBalance (columnText locked) (plainText params.amount),
      BalancesErrorCodes.insufficientLockedBalance⟩
  | .idempotencyPayloadMismatch => .error ⟨GrpcStatus.invalidArgument,
      BalancesErrors.idempotencyKeyPayloadMismatch,
      BalancesErrorCodes.idempotencyKeyPayloadMismatch⟩

/-- The ledger operation of a method. -/
def operation : BalanceMethod → BalanceOperation
  | .lockBalance => .lock
  | .unlockBalance => .unlock

section Calls

variable (isValidUuid : String → Bool)

/-- The common body of the calls. Neither opens an account, so no new id is used. -/
def mutate (op : BalanceOperation) (request : BalanceRequest) (db : AccountsDb) :
    AccountsDb × Except BalanceFailure Account :=
  match validateRequest isValidUuid request with
  | .error exception => (db, .error (.rpc exception))
  | .ok params =>
    match mutateBalance op.mutation "" params db with
    | (db', some result) => (db', (mapMutationResult params result).mapError .rpc)
    | (db', none) => (db', .error .database)

def lockBalance := mutate isValidUuid .lock

def unlockBalance := mutate isValidUuid .unlock

/-- A request at the service, from its checks to the end of its transaction. -/
def serve (request : BalanceRequest) : AccountsDb → AccountsDb × Except BalanceFailure Account :=
  match request.method with
  | .lockBalance => lockBalance isValidUuid request
  | .unlockBalance => unlockBalance isValidUuid request

/-- Whether a request moves funds: it passes the checks, its key is unused, and the guard of
the update holds. -/
def takesEffect (request : BalanceRequest) (db : AccountsDb) : Bool :=
  match validateRequest isValidUuid request with
  | .error _ => false
  | .ok params => (db.findLedgerByIdempotencyKey params.idempotencyKey).isNone &&
      (db.findByUserAndCurrency params.userId params.currency).any fun account =>
        ((operation request.method).mutation.refusal account params.amount).isNone

end Calls

/-- What a method adds to locked for a number of units. -/
def addsToLocked (method : BalanceMethod) (units : ℤ) : ℤ :=
  match method with
  | .lockBalance => units
  | .unlockBalance => -units

/-- What is locked of a currency for a user; nothing if there is no account. -/
def lockedOf (db : AccountsDb) (userId : Uuid) (currency : Currency) : ℤ :=
  ((accountBalances db userId currency).getD 0).2

variable {isValidUuid : String → Bool} {request : BalanceRequest} {params : BalanceParams}
  {db db' : AccountsDb} {userId : Uuid} {currency : Currency}

theorem serve_eq_mutate :
    serve isValidUuid request = mutate isValidUuid (operation request.method) request := by
  cases hmethod : request.method <;> simp only [serve, hmethod] <;> rfl

theorem bind_eq_ok {ε α β : Type} {x : Except ε α} {f : α → Except ε β} {b : β} :
    (x >>= f) = .ok b ↔ ∃ a, x = .ok a ∧ f a = .ok b := by
  cases x with
  | error e => simp [bind, Except.bind]
  | ok a => simp [bind, Except.bind]

theorem validateAmount_eq_ok {text : NumericText} {amount : Amount}
    (h : validateAmount text = .ok amount) : text.toNumeric = some amount.units := by
  unfold validateAmount at h
  split at h
  · next units =>
    obtain rfl := Except.ok.inj h
    rfl
  · cases h

/-- What the checks let through: the names and numbers of the request. -/
theorem validateRequest_eq_ok (h : validateRequest isValidUuid request = .ok params) :
    params.userId = request.userId ∧ normalizeCurrency request.currency = .ok params.currency ∧
      request.amount.toNumeric = some params.amount.units ∧
        requireIdempotencyKey request.idempotencyKey = .ok params.idempotencyKey := by
  simp only [validateRequest, bind_eq_ok] at h
  obtain ⟨userId, huser, currency, hcurrency, amount, hamount, key, hkey, hparams⟩ := h
  obtain rfl := Except.ok.inj hparams
  have huserId : userId = request.userId := by
    unfold validateUserId at huser
    split at huser
    · cases huser
    · exact (Except.ok.inj huser).symm
  exact ⟨huserId, hcurrency, validateAmount_eq_ok hamount, hkey⟩

/-- A request that moves funds finds the account, and the mutation commits on it. -/
theorem serve_of_takesEffect (h : takesEffect isValidUuid request db = true) :
    ∃ params account, validateRequest isValidUuid request = .ok params ∧
      db.findLedgerByIdempotencyKey params.idempotencyKey = none ∧
        Prepared (operation request.method).mutation params db account db ∧
          serve isValidUuid request db =
            ((operation request.method).mutation.commit params account db,
              .ok ((operation request.method).mutation.updatedAccount params account)) := by
  unfold takesEffect at h
  split at h
  · cases h
  · next params hparams =>
    rw [Bool.and_eq_true, Option.isNone_iff_eq_none, Option.any_eq_true] at h
    obtain ⟨hkey, account, hfound, hguard⟩ := h
    rw [Option.isNone_iff_eq_none] at hguard
    have hreplay := (resolveIdempotencyReplay_eq_none
      (operation request.method).mutation.expectedType).mpr hkey
    refine ⟨params, account, hparams, hkey, .found hfound hguard, ?_⟩
    rw [serve_eq_mutate]
    simp [mutate, hparams, mutateBalance, hreplay, hfound, hguard, mapMutationResult,
      Except.mapError]

theorem opensAccount_operation (method : BalanceMethod) :
    (operation method).mutation.opensAccount = false := by
  cases method <;> rfl

/-- A request that is refused or replayed leaves the database as it is. -/
theorem serve_of_not_takesEffect (h : takesEffect isValidUuid request db = false) :
    (serve isValidUuid request db).1 = db := by
  rw [serve_eq_mutate]
  unfold mutate
  split
  · rfl
  · next params hparams =>
    have hunchanged : ∀ result,
        mutateBalance (operation request.method).mutation "" params db = result →
          result.1 = db := by
      intro result hresult
      rcases mutateBalance_cases hresult with ⟨hdb, -⟩ | ⟨account, prepared, hkey, hprepared, -⟩
      · exact hdb
      · exfalso
        cases hprepared with
        | found hfound hguard =>
          simp [takesEffect, hparams, hkey, hfound, hguard] at h
        | opened hopens => simp [opensAccount_operation] at hopens
    split
    · next hresult => exact hunchanged _ hresult
    · next hresult => exact hunchanged _ hresult

theorem wellFormed_serve (hdb : WellFormed db) : WellFormed (serve isValidUuid request db).1 := by
  cases heffect : takesEffect isValidUuid request db with
  | false => rwa [serve_of_not_takesEffect heffect]
  | true =>
    obtain ⟨params, account, -, hkey, hprepared, hserve⟩ := serve_of_takesEffect heffect
    rw [hserve]
    exact wellFormed_commit hkey hprepared hdb

/-- What a request adds to what is locked: its amount or less its amount, if it moves funds. -/
theorem lockedOf_serve (hdb : WellFormed db) {units : ℤ}
    (hcurrency : normalizeCurrency request.currency = .ok request.currency)
    (hunits : ∀ n, request.amount.toNumeric = some n → n = units) :
    lockedOf (serve isValidUuid request db).1 userId currency = lockedOf db userId currency +
      if takesEffect isValidUuid request db = true ∧
          (request.userId, request.currency) = (userId, currency) then
        addsToLocked request.method units
      else 0 := by
  cases heffect : takesEffect isValidUuid request db with
  | false => simp [serve_of_not_takesEffect heffect]
  | true =>
    obtain ⟨params, account, hparams, hkey, hprepared, hserve⟩ := serve_of_takesEffect heffect
    obtain ⟨huser, hcur, hamount, -⟩ := validateRequest_eq_ok hparams
    obtain rfl := hunits params.amount.units hamount
    have hcur' : params.currency = request.currency := Except.ok.inj (hcur.symm.trans hcurrency)
    simp only [hserve, lockedOf, accountBalances_commit hdb hprepared, huser, hcur', true_and]
    split
    · next howner =>
      obtain ⟨rfl, rfl⟩ := Prod.mk.inj howner
      cases hmethod : request.method <;>
        simp [operation, addsToLocked, BalanceOperation.mutation, lockMutation,
          unlockMutation]
    · simp

end EtherTrade.BalancesService
