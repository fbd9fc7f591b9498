import EtherTrade.ContractMethods
import EtherTrade.DepositEventLaws

/-!
# The deposit vault and the mock token on a chain

The methods of the two contracts, and the chain around them: ether balances, the logs so
far, and other accounts, whose code is not known. Ether reaches an account with a message,
or without one when a contract destroys itself or a validator is paid. Gas is not counted;
any message may fail for want of it.
-/

namespace EtherTrade.DepositContracts

open Keccak256 ContractEvents ContractMethods ReentrantCalls
open DepositEventLaws (deposited CallResult transferFailed)

/-! ### Events -/

/-- `OwnershipTransferred(address indexed previousOwner, address indexed newOwner)` -/
def ownershipTransferred : Event := ⟨"OwnershipTransferred", [⟨.address, true⟩, ⟨.address, true⟩]⟩

/-- `NativeSweep(address indexed recipient, uint256 amount)` -/
def nativeSweep : Event := ⟨"NativeSweep", [⟨.address, true⟩, ⟨.uint256, false⟩]⟩

/-- `TokenSweep(address indexed token, address indexed recipient, uint256 amount)` -/
def tokenSweep : Event :=
  ⟨"TokenSweep", [⟨.address, true⟩, ⟨.address, true⟩, ⟨.uint256, false⟩]⟩

/-- `Transfer(address indexed from, address indexed to, uint256 value)` -/
def transferEvent : Event :=
  ⟨"Transfer", [⟨.address, true⟩, ⟨.address, true⟩, ⟨.uint256, false⟩]⟩

/-- `Approval(address indexed owner, address indexed spender, uint256 value)` -/
def approvalEvent : Event :=
  ⟨"Approval", [⟨.address, true⟩, ⟨.address, true⟩, ⟨.uint256, false⟩]⟩

/-! The logs of the events, and what an observer reads from them. -/

section Logs

variable (contract : Address) (logs : List Log)

def ownershipTransferredLog (previousOwner newOwner : Address) : Log :=
  ownershipTransferred.emit contract (previousOwner, newOwner, ())

def depositedLog (userId : BitVec 128) (token : Address) (amount : Word) (sender : Address) : Log :=
  deposited.emit contract (userId, token, amount, sender, ())

def nativeSweepLog (recipient : Address) (amount : Word) : Log :=
  nativeSweep.emit contract (recipient, amount, ())

def tokenSweepLog (token recipient : Address) (amount : Word) : Log :=
  tokenSweep.emit contract (token, recipient, amount, ())

def transferLog (sender recipient : Address) (value : Word) : Log :=
  transferEvent.emit contract (sender, recipient, value, ())

def approvalLog (owner spender : Address) (value : Word) : Log :=
  approvalEvent.emit contract (owner, spender, value, ())

/-- Tokens and amounts of deposits. -/
def deposits : List (Address × Word) :=
  (deposited.observed contract logs).map fun (_, token, amount, _) => (token, amount)

/-- Recipients and amounts of sweeps of ether. -/
def nativeSweeps : List (Address × Word) :=
  (nativeSweep.observed contract logs).map fun (recipient, amount, _) => (recipient, amount)

/-- Tokens, recipients and amounts of sweeps of tokens. -/
def tokenSweeps : List (Address × Address × Word) :=
  (tokenSweep.observed contract logs).map fun (token, recipient, amount, _) =>
    (token, recipient, amount)

/-- Senders, recipients and values of transfers. -/
def transfers : List (Address × Address × Word) :=
  (transferEvent.observed contract logs).map fun (sender, recipient, value, _) =>
    (sender, recipient, value)

variable {contract logs} {more : List Log} {event : Event} {values : Values event.inputs}
  {userId : BitVec 128} {token sender recipient : Address} {amount : Word}

theorem deposits_depositedLog : deposits contract
      (logs ++ [depositedLog contract userId token amount sender]) =
    deposits contract logs ++ [(token, amount)] :=
  (congrArg (List.map _) Event.observed_emit).trans List.map_append

theorem nativeSweeps_nativeSweepLog : nativeSweeps contract
      (logs ++ [nativeSweepLog contract recipient amount]) =
    nativeSweeps contract logs ++ [(recipient, amount)] :=
  (congrArg (List.map _) Event.observed_emit).trans List.map_append

theorem tokenSweeps_tokenSweepLog : tokenSweeps contract
      (logs ++ [tokenSweepLog contract token recipient amount]) =
    tokenSweeps contract logs ++ [(token, recipient, amount)] :=
  (congrArg (List.map _) Event.observed_emit).trans List.map_append

theorem transfers_transferLog : transfers contract
      (logs ++ [transferLog contract sender recipient amount]) =
    transfers contract logs ++ [(sender, recipient, amount)] :=
  (congrArg (List.map _) Event.observed_emit).trans List.map_append

end Logs

/-! ### MockUSDT -/

structure MockUsdt where
  totalSupply : Word
  balanceOf : Address → Word
  allowance : Address → Address → Word

/-- What a method of the token leaves behind: its storage, the logs it emits and its output. -/
abbrev UsdtResult := Except Bytes (MockUsdt × List Log × Bytes)

/-- The data of the error that arithmetic raises which leaves the words. -/
def overflow : Bytes := encodeWithSelector (selectorOf "Panic(uint256)") [.uint256] (0x11, ())

def checkedAdd (a b : Word) : Except Bytes Word :=
  if 2 ^ 256 ≤ a.toNat + b.toNat then .error overflow else .ok (a + b)

def checkedSub (a b : Word) : Except Bytes Word := if a < b then .error overflow else .ok (a - b)

/-- The output `true`. -/
def returnsTrue : Bytes := toBytes 32 (1 : Word)

namespace MockUsdt

variable (usdt : Address) (t : MockUsdt) (msgSender : Address)

def debit (account : Address) (amount : Word) : Except Bytes MockUsdt := do
  let balance ← checkedSub (t.balanceOf account) amount
  return { t with balanceOf := Function.update t.balanceOf account balance }

def credit (account : Address) (amount : Word) : Except Bytes MockUsdt := do
  let balance ← checkedAdd (t.balanceOf account) amount
  return { t with balanceOf := Function.update t.balanceOf account balance }

def setAllowance (owner spender : Address) (amount : Word) : MockUsdt :=
  { t with
    allowance := Function.update t.allowance owner
      (Function.update (t.allowance owner) spender amount) }

def transfer (recipient : Address) (amount : Word) : UsdtResult := do
  if recipient = 0 then throw (errorData "ZeroAddress")
  if t.balanceOf msgSender < amount then throw (errorData "InsufficientBalance")
  let t ← t.debit msgSender amount
  let t ← t.credit recipient amount
  return (t, [transferLog usdt msgSender recipient amount], returnsTrue)

def approve (spender : Address) (amount : Word) : UsdtResult := do
  if spender = 0 then throw (errorData "ZeroAddress")
  return (t.setAllowance msgSender spender amount,
    [approvalLog usdt msgSender spender amount], returnsTrue)

/-- An allowance of the largest word is not used up. -/
def transferFrom (sender recipient : Address) (amount : Word) : UsdtResult := do
  if recipient = 0 then throw (errorData "ZeroAddress")
  if t.balanceOf sender < amount then throw (errorData "InsufficientBalance")
  let currentAllowance := t.allowance sender msgSender
  if currentAllowance < amount then throw (errorData "InsufficientAllowance")
  let t := if currentAllowance = BitVec.allOnes 256 then t
    else t.setAllowance sender msgSender (currentAllowance - amount)
  let t ← t.debit sender amount
  let t ← t.credit recipient amount
  return (t, [transferLog usdt sender recipient amount], returnsTrue)

def mintTo (recipient : Address) (amount : Word) : UsdtResult := do
  let totalSupply ← checkedAdd t.totalSupply amount
  let t ← { t with totalSupply }.credit recipient amount
  return (t, [transferLog usdt 0 recipient amount], [])

def mint (recipient : Address) (amount : Word) : UsdtResult := do
  if recipient = 0 then throw (errorData "ZeroAddress")
  t.mintTo usdt recipient amount

end MockUsdt

/-! ### The chain -/

structure World where
  ether : Address → ℕ
  owner : Address
  usdt : MockUsdt
  logs : List Log
  /-- The ether that the vault has received without a message. -/
  unsolicited : ℕ

abbrev Contract (α : Type) := Program World Message Bytes α

def emit (log : Log) : Contract PUnit := Program.modify fun w => { w with logs := w.logs ++ [log] }

/-- A method of the token, on the chain. -/
def onUsdt (method : MockUsdt → UsdtResult) : Contract Bytes := do
  let w ← Program.read
  match method w.usdt with
  | .error error => .revert error
  | .ok (usdt, logs, output) =>
    Program.modify fun w => { w with usdt, logs := w.logs ++ logs }
    pure output

def view (output : World → Bytes) : Contract Bytes := do
  let w ← Program.read
  pure (output w)

def usdtMethods (usdt : Address) : List (Method World) :=
  [⟨"transfer", [.address, .uint256], false,
      fun m (recipient, amount, _) => onUsdt fun t => t.transfer usdt m.sender recipient amount⟩,
    ⟨"approve", [.address, .uint256], false,
      fun m (spender, amount, _) => onUsdt fun t => t.approve usdt m.sender spender amount⟩,
    ⟨"transferFrom", [.address, .address, .uint256], false,
      fun m (sender, recipient, amount, _) =>
        onUsdt fun t => t.transferFrom usdt m.sender sender recipient amount⟩,
    ⟨"mint", [.address, .uint256], false,
      fun _ (recipient, amount, _) => onUsdt fun t => t.mint usdt recipient amount⟩,
    ⟨"decimals", [], false, fun _ _ => view fun _ => toBytes 32 (6 : Word)⟩,
    ⟨"totalSupply", [], false, fun _ _ => view fun w => toBytes 32 w.usdt.totalSupply⟩,
    ⟨"balanceOf", [.address], false,
      fun _ (account, _) => view fun w => toBytes 32 (w.usdt.balanceOf account)⟩,
    ⟨"allowance", [.address, .address], false,
      fun _ (owner, spender, _) => view fun w => toBytes 32 (w.usdt.allowance owner spender)⟩]

/-- The token takes no plain ether. -/
def usdtCode (usdt : Address) : Message → Contract Bytes :=
  dispatch (usdtMethods usdt) fun _ => .revert []

/-! ### DepositVault -/

section Vault

variable (vault : Address) (m : Message)

def checkOwner : Contract PUnit := do
  let w ← Program.read
  if m.sender ≠ w.owner then .revert (errorData "Unauthorized") else pure ⟨⟩

def depositNative (userId : BitVec 128) : Contract PUnit :=
  if m.value = 0 then .revert (errorData "ZeroDepositAmount")
  else emit (depositedLog vault userId 0 m.value m.sender)

/-- What a low-level call gives the caller. -/
def callResult : Except Bytes Bytes → CallResult
  | .ok data => ⟨true, data⟩
  | .error data => ⟨false, data⟩

/-- `!success || (data.length > 0 && !abi.decode(data, (bool)))`; decoding may revert. -/
def requireTransferred (r : Except Bytes Bytes) : Contract PUnit :=
  match transferFailed (callResult r) with
  | .error _ => .revert []
  | .ok true => .revert (errorData "TransferFailed")
  | .ok false => pure ⟨⟩

def transferFromData (sender recipient : Address) (amount : Word) : Bytes :=
  encodeWithSelector 0x23b872dd [.address, .address, .uint256] (sender, recipient, amount, ())

def transferData (recipient : Address) (amount : Word) : Bytes :=
  encodeWithSelector 0xa9059cbb [.address, .uint256] (recipient, amount, ())

def depositToken (userId : BitVec 128) (token : Address) (amount : Word) : Contract PUnit :=
  if token = 0 then .revert (errorData "ZeroTokenAddress")
  else if amount = 0 then .revert (errorData "ZeroDepositAmount")
  else do
    let r ← Program.send ⟨vault, token, 0, transferFromData m.sender vault amount⟩
    requireTransferred r
    emit (depositedLog vault userId token amount m.sender)

def sweepNative (recipient : Address) (amount : Word) : Contract PUnit := do
  checkOwner m
  if recipient = 0 then .revert (errorData "ZeroRecipientAddress")
  else do
    let r ← Program.send ⟨vault, recipient, amount, []⟩
    match r with
    | .error _ => .revert (errorData "TransferFailed")
    | .ok _ => emit (nativeSweepLog vault recipient amount)

def sweepToken (token recipient : Address) (amount : Word) : Contract PUnit := do
  checkOwner m
  if token = 0 then .revert (errorData "ZeroTokenAddress")
  else if recipient = 0 then .revert (errorData "ZeroRecipientAddress")
  else do
    let r ← Program.send ⟨vault, token, 0, transferData recipient amount⟩
    requireTransferred r
    emit (tokenSweepLog vault token recipient amount)

def transferOwnership (newOwner : Address) : Contract PUnit := do
  checkOwner m
  if newOwner = 0 then .revert (errorData "ZeroRecipientAddress")
  else do
    let w ← Program.read
    Program.modify fun w => { w with owner := newOwner }
    emit (ownershipTransferredLog vault w.owner newOwner)

end Vault

/-- The output of a method that returns nothing. -/
def noOutput (method : Contract PUnit) : Contract Bytes := do
  method
  pure []

def vaultMethods (vault : Address) : List (Method World) :=
  [⟨"owner", [], false, fun _ _ => view fun w => toBytes 32 (AbiType.encode .address w.owner)⟩,
    ⟨"depositNative", [.bytes16], true,
      fun m (userId, _) => noOutput (depositNative vault m userId)⟩,
    ⟨"depositToken", [.bytes16, .address, .uint256], false,
      fun m (userId, token, amount, _) => noOutput (depositToken vault m userId token amount)⟩,
    ⟨"sweepNative", [.address, .uint256], false,
      fun m (recipient, amount, _) => noOutput (sweepNative vault m recipient amount)⟩,
    ⟨"sweepToken", [.address, .address, .uint256], false,
      fun m (token, recipient, amount, _) => noOutput (sweepToken vault m token recipient amount)⟩,
    ⟨"transferOwnership", [.address], false,
      fun m (newOwner, _) => noOutput (transferOwnership vault m newOwner)⟩]

/-- Plain ether is refused. -/
def vaultCode (vault : Address) : Message → Contract Bytes :=
  dispatch (vaultMethods vault) fun _ => .revert (errorData "DirectNativeDepositDisabled")

/-! ### Other accounts -/

/-- The addresses of the two contracts, and which accounts have no code. -/
structure Deployment where
  vault : Address
  usdt : Address
  external : Address → Prop
  distinct : vault ≠ usdt
  vault_code : ¬external vault
  usdt_code : ¬external usdt
  /-- No contract is at the zero address. -/
  usdt_nonzero : usdt ≠ 0

namespace Deployment

variable (D : Deployment)

/-- Ether moves with a message. -/
def pay (w : World) (source recipient : Address) (amount : ℕ) : World :=
  let paid := Function.update w.ether source (w.ether source - amount)
  { w with ether := Function.update paid recipient (paid recipient + amount) }

/-- Ether comes to an account without a message. -/
def unsolicited (w : World) (recipient : Address) (amount : ℕ) : World :=
  { w with unsolicited := if recipient = D.vault then w.unsolicited + amount else w.unsolicited }

/-- What the code of another account may do by itself: emit a log under its own address, or
give up its ether to any account. -/
inductive Changes (account : Address) (w : World) : World → Prop
  | logged (log : Log) (haddress : log.address = account) :
      Changes account w { w with logs := w.logs ++ [log] }
  | destroyed (recipient : Address) (amount : ℕ) (hamount : amount ≤ w.ether account) :
      Changes account w (D.unsolicited (pay w account recipient amount) recipient amount)

/-- The code of the two contracts is known. Other accounts have any code, or none. -/
def machine : Machine World Message Bytes where
  enter m w :=
    if m.value.toNat ≤ w.ether m.sender then some (pay w m.sender m.receiver m.value.toNat)
    else none
  code m :=
    if m.receiver = D.vault then some (vaultCode D.vault m)
    else if m.receiver = D.usdt then some (usdtCode D.usdt m)
    else none
  maySend m m' := ¬D.external m.receiver ∧ m'.sender = m.receiver
  mayChange m w w' := ¬D.external m.receiver ∧ D.Changes m.receiver w w'
  drift w w' := ∃ recipient amount, w' = D.unsolicited
    { w with ether := Function.update w.ether recipient (w.ether recipient + amount) } recipient
    amount

/-- The constructors have run, each for its deployer. -/
structure Constructed (w : World) : Prop where
  usdt : ∃ deployer logs output, deployer ≠ 0 ∧
    (MockUsdt.mk 0 (fun _ => 0) fun _ _ => 0).mintTo D.usdt deployer 10000000000000 =
      .ok (w.usdt, logs, output) ∧
    w.logs = logs ++ [ownershipTransferredLog D.vault 0 w.owner]
  ether : w.unsolicited = w.ether D.vault

/-- Transactions are messages of accounts without code. -/
def Transaction (m : Message) : Prop := D.external m.sender

/-- The worlds that any transactions lead to, with whatever code other accounts have. -/
def Reaches : World → World → Prop := Leads D.machine D.Transaction

end Deployment

end EtherTrade.DepositContracts
