import EtherTrade.BalancesService

/-!
# Deposit events, wallet deposits and their credits

The deposit events of the vault as the scanner decodes them, the rows of
`wallet_deposits`, the deposit event of the outbox, and `creditDepositFunds` of the
accounts service. Amounts are counted in units of `10⁻⁸`. Times are left out; no statement
reads them.
-/

namespace EtherTrade.DepositsSchema

open DecimalNumbers KeyedRows AccountsSchema BalanceMutations BalancesService

/-! ### Events -/

/-- The parameters of `processDepositEvent`. A native deposit has no token address. -/
structure DepositEvent where
  txHash : String
  blockNumber : ℕ
  userBytes16 : String
  tokenAddress : Option String
  rawAmount : ℕ
  deriving DecidableEq, Repr

def isHexDigit (c : Char) : Bool :=
  c.isDigit || ('a' ≤ c && c ≤ 'f') || ('A' ≤ c && c ≤ 'F')

/-- So many bytes in hexadecimal, behind `0x`. -/
def IsHex (bytes : ℕ) (text : String) : Prop :=
  ∃ digits : List Char, text.toList = '0' :: 'x' :: digits ∧ digits.length = 2 * bytes ∧
    digits.all isHexDigit = true

/-- The blocks from one to another. -/
structure BlockRange where
  fromBlock : ℕ
  toBlock : ℕ
  deriving DecidableEq, Repr

def BlockRange.Covers (range : BlockRange) (block : ℕ) : Prop :=
  range.fromBlock ≤ block ∧ block ≤ range.toBlock

instance (range : BlockRange) (block : ℕ) : Decidable (range.Covers block) :=
  inferInstanceAs (Decidable (_ ∧ _))

/-- The vault's logs that one of the two event filters decodes, in the order of the chain. A
transaction is in one block. -/
structure Chain where
  logs : List DepositEvent
  hashes : ∀ log ∈ logs, IsHex 32 log.txHash
  userIds : ∀ log ∈ logs, IsHex 16 log.userBytes16
  blocks : ∀ log ∈ logs, ∀ other ∈ logs, log.txHash = other.txHash →
    log.blockNumber = other.blockNumber

namespace Chain

variable (chain : Chain) (range : BlockRange)

/-- `getLogs` with the filter of native deposits. -/
def nativeLogs : List DepositEvent :=
  chain.logs.filter fun log => log.tokenAddress.isNone && decide (range.Covers log.blockNumber)

/-- `getLogs` with the filter of token deposits. -/
def tokenLogs : List DepositEvent :=
  chain.logs.filter fun log => log.tokenAddress.isSome && decide (range.Covers log.blockNumber)

end Chain

/-! ### User ids -/

def invalidBytes16 (bytes16 : String) : String :=
  "Invalid bytes16 length for UUID conversion: " ++ bytes16

def bytes16ToUuid (bytes16 : String) : Except String Uuid :=
  let hex := match bytes16.toList with
    | '0' :: 'x' :: digits => digits
    | digits => digits
  let cleanHex := hex.map Char.toLower
  if cleanHex.length = 32 then
    .ok (String.ofList (cleanHex.take 8 ++ ['-'] ++ (cleanHex.drop 8).take 4 ++ ['-'] ++
      (cleanHex.drop 12).take 4 ++ ['-'] ++ (cleanHex.drop 16).take 4 ++ ['-'] ++
      cleanHex.drop 20))
  else .error (invalidBytes16 bytes16)

theorem exists_uuid {bytes16 : String} (h : IsHex 16 bytes16) :
    ∃ userId, bytes16ToUuid bytes16 = .ok userId := by
  obtain ⟨digits, htext, hlength, -⟩ := h
  simp only [bytes16ToUuid, htext, List.length_map, hlength, if_true]
  exact ⟨_, rfl⟩

/-! ### Amounts -/

def platformDecimals : ℕ := 8

/-- One unit. -/
def minDepositThreshold : ℕ := 1

/-- The digits of an integer of so many decimals, without those after the eighth. -/
def scaleEvmAmountToPlatform (evmAmount tokenDecimals : ℕ) : ℕ :=
  evmAmount * 10 ^ platformDecimals / 10 ^ tokenDecimals

def isAboveMinDepositThreshold (amount : ℕ) : Bool := minDepositThreshold ≤ amount

structure TokenConfig where
  currency : Currency
  decimals : ℕ
  deriving DecidableEq, Repr

def nativeEthAddress : String := "0x0000000000000000000000000000000000000000"

def nativeEthDecimals : ℕ := 18

def usdtDecimals : ℕ := 6

/-- The tokens that are accepted; the case of an address does not matter. -/
def resolveTokenConfig (usdtTokenAddress : String) : Option String → Option TokenConfig
  | none => some ⟨.eth, nativeEthDecimals⟩
  | some tokenAddress =>
    if tokenAddress = "" ∨ tokenAddress.toLower = nativeEthAddress.toLower then
      some ⟨.eth, nativeEthDecimals⟩
    else if tokenAddress.toLower = usdtTokenAddress.toLower then some ⟨.usdt, usdtDecimals⟩
    else none

/-! ### Rows -/

inductive DepositStatus where
  | confirmed
  | credited
  | pending
  | rejectedUnsupportedToken
  | rejectedBelowMinimum
  deriving DecidableEq, Repr

/-- The columns of a deposit that no statement updates. -/
structure DepositTerms where
  userId : Uuid
  txHash : String
  blockNumber : ℕ
  tokenAddress : Option String
  currency : Currency
  amount : ℕ
  deriving DecidableEq, Repr

structure NewWalletDeposit extends DepositTerms where
  status : DepositStatus
  deriving DecidableEq, Repr

/-- A row of `wallet_deposits`. -/
structure WalletDeposit extends NewWalletDeposit where
  id : Uuid
  deriving DecidableEq, Repr

structure DepositConfirmedEvent where
  depositId : Uuid
  userId : Uuid
  currency : Currency
  amount : ℕ
  txHash : String
  blockNumber : ℕ
  deriving DecidableEq, Repr

/-- What `processDepositEvent` stores for an event that has no row yet. -/
def newDeposit (usdtTokenAddress : String) (event : DepositEvent) :
    Except String NewWalletDeposit := do
  let userId ← bytes16ToUuid event.userBytes16
  match resolveTokenConfig usdtTokenAddress event.tokenAddress with
  | none =>
    return ⟨⟨userId, event.txHash, event.blockNumber, event.tokenAddress, .other "UNKNOWN", 0⟩,
      .rejectedUnsupportedToken⟩
  | some tokenConfig =>
    let platformAmount := scaleEvmAmountToPlatform event.rawAmount tokenConfig.decimals
    return ⟨⟨userId, event.txHash, event.blockNumber, event.tokenAddress, tokenConfig.currency,
      platformAmount⟩,
      if isAboveMinDepositThreshold platformAmount then .confirmed else .rejectedBelowMinimum⟩

def confirmedEvent (deposit : WalletDeposit) : DepositConfirmedEvent :=
  ⟨deposit.id, deposit.userId, deposit.currency, deposit.amount, deposit.txHash,
    deposit.blockNumber⟩

/-! ### Credits -/

structure CreditDepositFundsRequest where
  userId : String
  amount : NumericText
  currency : Currency
  idempotencyKey : String
  referenceId : String
  deriving DecidableEq, Repr

def depositKey (txHash : String) : String := "deposit:" ++ txHash

/-- The request of `creditUserAccount`. -/
def creditRequest (deposit : WalletDeposit) (txHash : String) : CreditDepositFundsRequest where
  userId := deposit.userId
  amount := .digits 0 deposit.amount
  currency := deposit.currency
  idempotencyKey := depositKey txHash
  referenceId := deposit.id

section Accounts

variable (isValidUuid : String → Bool) (newId : Uuid) (request : CreditDepositFundsRequest)
  (db : AccountsDb)

def validateCreditRequest : Except BalanceException BalanceParams := do
  let userId ← validateUserId isValidUuid request.userId
  let currency ← normalizeCurrency request.currency
  let amount ← validateAmount request.amount
  let idempotencyKey ← requireIdempotencyKey request.idempotencyKey
  let referenceId := trim request.referenceId
  return ⟨userId, currency, amount, idempotencyKey,
    if referenceId = "" then none else some referenceId⟩

/-- `creditDepositFunds` of the accounts service, with the id that an account it opens will
get. -/
def creditDepositFunds : AccountsDb × Except BalanceFailure Account :=
  match validateCreditRequest isValidUuid request with
  | .error exception => (db, .error (.rpc exception))
  | .ok params =>
    match creditDeposit newId params db with
    | (db', some result) => (db', (mapMutationResult params result).mapError .rpc)
    | (db', none) => (db', .error .database)

end Accounts

end EtherTrade.DepositsSchema
