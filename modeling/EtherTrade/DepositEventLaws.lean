import EtherTrade.ContractEvents
import EtherTrade.DepositsSchema
import Mathlib.Logic.Basic

/-!
# The vault's deposit event and the scanner's filters

The two deposit functions of the vault with the event they emit, and `scanRange` with the
two events it asks the node for. The vault's event has another name and other arguments
than the scanner's, so that the hash of its signature is neither of theirs: the scanner
sees no deposit.
-/

namespace EtherTrade.DepositEventLaws

open Keccak256 ContractEvents DepositsSchema

/-! ### DepositVault -/

/-- `Deposited(bytes16 indexed userId, address indexed token, uint256 amount, address sender)` -/
def deposited : Event :=
  ⟨"Deposited", [⟨.bytes16, true⟩, ⟨.address, true⟩, ⟨.uint256, false⟩, ⟨.address, false⟩]⟩

structure Message where
  sender : Address
  value : Word
  deriving DecidableEq, Repr

/-- `revert` stands for a revert without an error of the contract. -/
inductive VaultError where
  | zeroTokenAddress
  | zeroDepositAmount
  | transferFailed
  | revert
  deriving DecidableEq, Repr

/-- What the low-level call of the token's `transferFrom` returns. -/
structure CallResult where
  success : Bool
  data : List Byte
  deriving DecidableEq, Repr

/-- `abi.decode(data, (bool))`, which reverts on anything but a whole word of zero or one. -/
def decodeBool (data : List Byte) : Except VaultError Bool :=
  if data.length < 32 then .error .revert
  else if ofBytes 256 (data.take 32) = 0 then .ok false
  else if ofBytes 256 (data.take 32) = 1 then .ok true
  else .error .revert

section Vault

variable (vault : Address) (msg : Message)

def depositNative (userId : BitVec 128) : Except VaultError Log :=
  if msg.value = 0 then .error .zeroDepositAmount
  else .ok (deposited.emit vault (userId, (0 : Address), msg.value, msg.sender, ()))

/-- `!success || (data.length > 0 && !abi.decode(data, (bool)))` -/
def transferFailed (transferFrom : CallResult) : Except VaultError Bool :=
  if !transferFrom.success then .ok true
  else if transferFrom.data.length > 0 then (decodeBool transferFrom.data).map not
  else .ok false

/-- The function is not payable. -/
def depositToken (userId : BitVec 128) (token : Address) (amount : Word)
    (transferFrom : CallResult) : Except VaultError Log :=
  if msg.value ≠ 0 then .error .revert
  else if token = 0 then .error .zeroTokenAddress
  else if amount = 0 then .error .zeroDepositAmount
  else (transferFailed transferFrom).bind fun failed =>
    if failed then .error .transferFailed
    else .ok (deposited.emit vault (userId, token, amount, msg.sender, ()))

end Vault

inductive DepositCall where
  | native (userId : BitVec 128)
  | token (userId : BitVec 128) (address : Address) (amount : Word) (transferFrom : CallResult)
  deriving DecidableEq, Repr

def DepositCall.run (vault : Address) (msg : Message) : DepositCall → Except VaultError Log
  | native userId => depositNative vault msg userId
  | token userId address amount transferFrom =>
    depositToken vault msg userId address amount transferFrom

/-! ### DepositScannerService -/

/-- A log with its place in the chain. -/
structure MinedLog extends Log where
  transactionHash : String
  blockNumber : ℕ
  deriving DecidableEq, Repr

/-- `NativeDeposited(bytes16 indexed userId, address indexed sender, uint256 amount)` -/
def nativeDepositedEvent : Event :=
  ⟨"NativeDeposited", [⟨.bytes16, true⟩, ⟨.address, true⟩, ⟨.uint256, false⟩]⟩

/-- `TokenDeposited(bytes16 indexed userId, address indexed sender, address indexed token,
uint256 amount)` -/
def tokenDepositedEvent : Event :=
  ⟨"TokenDeposited", [⟨.bytes16, true⟩, ⟨.address, true⟩, ⟨.address, true⟩, ⟨.uint256, false⟩]⟩

def getLogs (event : Event) (address : Address) (range : BlockRange) (logs : List MinedLog) :
    List MinedLog :=
  logs.filter fun log => event.Selects address log.toLog ∧ range.Covers log.blockNumber

def toHex {n : ℕ} (value : BitVec n) : String := "0x" ++ value.toHex

/-- The text of a decoded address: a digit is in upper case where the same digit of the hash
of the text in lower case is eight or more. -/
def checksumAddress (address : Address) : String :=
  let digits := address.toHex
  let hash := keccak256 (Event.asciiBytes digits)
  "0x" ++ String.ofList (digits.toList.zipIdx.map fun (digit, i) =>
    if hash.getMsbD (4 * i) then digit.toUpper else digit)

/-- The parameters of `processDepositEvent` for a log of the first filter. A log whose
arguments are not all there is passed over. -/
def nativeDeposit (log : MinedLog) : Option DepositEvent :=
  (nativeDepositedEvent.decode log.toLog).map fun (userId, _, amount, _) =>
    ⟨log.transactionHash, log.blockNumber, toHex userId, none, amount.toNat⟩

def tokenDeposit (log : MinedLog) : Option DepositEvent :=
  (tokenDepositedEvent.decode log.toLog).map fun (userId, _, token, amount, _) =>
    ⟨log.transactionHash, log.blockNumber, toHex userId, some (checksumAddress token),
      amount.toNat⟩

/-- The calls of `processDepositEvent`. -/
def scanRange (vaultAddress : Address) (range : BlockRange) (logs : List MinedLog) :
    List DepositEvent :=
  (getLogs nativeDepositedEvent vaultAddress range logs).filterMap nativeDeposit ++
    (getLogs tokenDepositedEvent vaultAddress range logs).filterMap tokenDeposit

/-! ### Agreement -/

/-- What the scanner should make of the log of a call. -/
def expectedDeposit (msg : Message) (log : MinedLog) : DepositCall → DepositEvent
  | .native userId =>
    ⟨log.transactionHash, log.blockNumber, toHex userId, none, msg.value.toNat⟩
  | .token userId address amount _ =>
    ⟨log.transactionHash, log.blockNumber, toHex userId, some (checksumAddress address),
      amount.toNat⟩

/-- Exactly one filter selects the log, and every scan of its block makes one call. -/
structure Agrees (vault : Address) (msg : Message) (call : DepositCall) (log : MinedLog) :
    Prop where
  selected : Xor (nativeDepositedEvent.Selects vault log.toLog)
    (tokenDepositedEvent.Selects vault log.toLog)
  decoded : ∀ range : BlockRange, range.Covers log.blockNumber →
    scanRange vault range [log] = [expectedDeposit msg log call]

theorem topic0_deposited : deposited.topic0 =
    0x648c837f2e126dcea4f1c7a024c90da5d3ffb0369a0e248b54d159e8e4399e26 := by
  decide +kernel

theorem topic0_nativeDeposited : nativeDepositedEvent.topic0 =
    0x41fe0ff138adbbf0b07c33c7563c2ae1af31f1f9a039fb1645c01a38efcd1762 := by
  decide +kernel

theorem topic0_tokenDeposited : tokenDepositedEvent.topic0 =
    0x04c054b1432d888b7af6925534f126db1ea20a87ae8840f245cd95b2745c2ae0 := by
  decide +kernel

variable {vault : Address} {msg : Message} {call : DepositCall} {log : MinedLog} {l : Log}
  {range : BlockRange} {logs : List MinedLog}

theorem depositToken_eq_ok {userId : BitVec 128} {token : Address} {amount : Word}
    {transferFrom : CallResult} (h : depositToken vault msg userId token amount transferFrom =
      .ok l) : l = deposited.emit vault (userId, token, amount, msg.sender, ()) := by
  simp only [depositToken] at h
  split_ifs at h
  cases hfailed : transferFailed transferFrom with
  | error e =>
    rw [hfailed] at h
    cases h
  | ok failed =>
    rw [hfailed] at h
    cases failed with
    | true => cases h
    | false => exact (Except.ok.inj h).symm

/-- A call that succeeds has emitted the vault's event. -/
theorem exists_emitted (h : call.run vault msg = .ok l) :
    ∃ values, l = deposited.emit vault values := by
  cases call with
  | native userId =>
    simp only [DepositCall.run, depositNative] at h
    split_ifs at h
    exact ⟨_, (Except.ok.inj h).symm⟩
  | token userId address amount transferFrom => exact ⟨_, depositToken_eq_ok h⟩

theorem not_selects_native (h : call.run vault msg = .ok l) (address : Address) :
    ¬nativeDepositedEvent.Selects address l := by
  obtain ⟨values, rfl⟩ := exists_emitted h
  rw [Event.selects_emit_iff, topic0_deposited, topic0_nativeDeposited]
  exact fun hselects => absurd hselects.2 (by decide)

theorem not_selects_token (h : call.run vault msg = .ok l) (address : Address) :
    ¬tokenDepositedEvent.Selects address l := by
  obtain ⟨values, rfl⟩ := exists_emitted h
  rw [Event.selects_emit_iff, topic0_deposited, topic0_tokenDeposited]
  exact fun hselects => absurd hselects.2 (by decide)

/-- Whatever deposits a stretch of the chain holds, its scan calls nothing. -/
theorem scanRange_eq_nil (h : ∀ log ∈ logs, ∃ (msg : Message) (call : DepositCall),
    call.run vault msg = .ok log.toLog) : scanRange vault range logs = [] := by
  have hnone (event : Event) (hselects : ∀ log ∈ logs, ¬event.Selects vault log.toLog) :
      getLogs event vault range logs = [] :=
    List.filter_eq_nil_iff.mpr fun log hlog hkept =>
      hselects log hlog (of_decide_eq_true hkept).1
  have hnative : ∀ log ∈ logs, ¬nativeDepositedEvent.Selects vault log.toLog := by
    intro log hlog
    obtain ⟨msg, call, hrun⟩ := h log hlog
    exact not_selects_native hrun vault
  have htoken : ∀ log ∈ logs, ¬tokenDepositedEvent.Selects vault log.toLog := by
    intro log hlog
    obtain ⟨msg, call, hrun⟩ := h log hlog
    exact not_selects_token hrun vault
  rw [scanRange, hnone _ hnative, hnone _ htoken]
  rfl

theorem getLogs_self {event : Event} {values : Values event.inputs}
    (hlog : log.toLog = event.emit vault values) (hcovers : range.Covers log.blockNumber) :
    getLogs event vault range [log] = [log] := by
  have hselects : event.Selects vault log.toLog := by
    rw [hlog, Event.selects_emit_iff]
    exact ⟨rfl, rfl⟩
  exact List.filter_eq_self.mpr fun l hl => by
    rw [List.mem_singleton.mp hl]
    exact decide_eq_true ⟨hselects, hcovers⟩

theorem getLogs_other {event emitted : Event} {values : Values emitted.inputs}
    (hlog : log.toLog = emitted.emit vault values) (hne : emitted.topic0 ≠ event.topic0) :
    getLogs event vault range [log] = [] := by
  refine List.filter_eq_nil_iff.mpr fun l hl hkept => ?_
  have hselects : event.Selects vault l.toLog := (of_decide_eq_true hkept).1
  rw [List.mem_singleton.mp hl, hlog, Event.selects_emit_iff] at hselects
  exact hne hselects.2

theorem nativeDeposit_eq {userId : BitVec 128} {sender : Address} {amount : Word}
    (hlog : log.toLog = nativeDepositedEvent.emit vault (userId, sender, amount, ())) :
    nativeDeposit log =
      some ⟨log.transactionHash, log.blockNumber, toHex userId, none, amount.toNat⟩ := by
  have hdecode : nativeDepositedEvent.decode log.toLog = some (userId, sender, amount, ()) := by
    rw [hlog]
    exact Event.decode_emit _ _ _
  rw [nativeDeposit, hdecode]
  rfl

theorem tokenDeposit_eq {userId : BitVec 128} {sender token : Address} {amount : Word}
    (hlog : log.toLog = tokenDepositedEvent.emit vault (userId, sender, token, amount, ())) :
    tokenDeposit log = some ⟨log.transactionHash, log.blockNumber, toHex userId,
      some (checksumAddress token), amount.toNat⟩ := by
  have hdecode : tokenDepositedEvent.decode log.toLog =
      some (userId, sender, token, amount, ()) := by
    rw [hlog]
    exact Event.decode_emit _ _ _
  rw [tokenDeposit, hdecode]
  rfl

/-- The scanner reads back the events that it declares itself. -/
theorem scanRange_nativeDeposited {userId : BitVec 128} {sender : Address} {amount : Word}
    (hlog : log.toLog = nativeDepositedEvent.emit vault (userId, sender, amount, ()))
    (hcovers : range.Covers log.blockNumber) : scanRange vault range [log] =
      [⟨log.transactionHash, log.blockNumber, toHex userId, none, amount.toNat⟩] := by
  have hne : nativeDepositedEvent.topic0 ≠ tokenDepositedEvent.topic0 := by
    rw [topic0_nativeDeposited, topic0_tokenDeposited]
    decide
  rw [scanRange, getLogs_self hlog hcovers, getLogs_other hlog hne]
  rw [List.filterMap_cons_some (nativeDeposit_eq hlog)]
  rfl

theorem scanRange_tokenDeposited {userId : BitVec 128} {sender token : Address} {amount : Word}
    (hlog : log.toLog = tokenDepositedEvent.emit vault (userId, sender, token, amount, ()))
    (hcovers : range.Covers log.blockNumber) : scanRange vault range [log] =
      [⟨log.transactionHash, log.blockNumber, toHex userId, some (checksumAddress token),
        amount.toNat⟩] := by
  have hne : tokenDepositedEvent.topic0 ≠ nativeDepositedEvent.topic0 := by
    rw [topic0_nativeDeposited, topic0_tokenDeposited]
    decide
  rw [scanRange, getLogs_self hlog hcovers, getLogs_other hlog hne]
  rw [List.filterMap_cons_some (tokenDeposit_eq hlog)]
  rfl

/-- No deposit's log reaches the scanner. -/
theorem agrees_never (h : call.run vault msg = .ok log.toLog) : ¬Agrees vault msg call log := by
  intro hagrees
  rcases hagrees.selected with ⟨hnative, -⟩ | ⟨htoken, -⟩
  · exact not_selects_native h vault hnative
  · exact not_selects_token h vault htoken

def someVault : Address := 0x5fbdb2315678afecb367f032d93f642f64180aa3

/-- One ether from the first account of a fresh node. -/
def oneEther : Message := ⟨0xf39fd6e51aad88f6f4ce6ab8827279cfffb92266, 1000000000000000000⟩

def someDeposit : DepositCall := .native 0x018f3a2b4c5d7e8f9a0b1c2d3e4f5a6b

def depositLog : MinedLog where
  address := someVault
  topics := [deposited.topic0, 0x018f3a2b4c5d7e8f9a0b1c2d3e4f5a6b00000000000000000000000000000000,
    0]
  data := toBytes 32 (1000000000000000000 : Word) ++
    toBytes 32 (0xf39fd6e51aad88f6f4ce6ab8827279cfffb92266 : Word)
  transactionHash := "0x5c504ed432cb51138bcf09aa5e8a410dd4a1e204ef84bfed1be16dfba1b22060"
  blockNumber := 7

theorem someDeposit_succeeds : someDeposit.run someVault oneEther = .ok depositLog.toLog := by
  rfl

/-- One ether to the vault: neither filter selects the log. -/
theorem agrees_never_someDeposit : someDeposit.run someVault oneEther = .ok depositLog.toLog ∧
    ¬Agrees someVault oneEther someDeposit depositLog :=
  ⟨someDeposit_succeeds, agrees_never someDeposit_succeeds⟩

theorem someDeposit_disagrees : ¬∀ (vault : Address) (msg : Message) (call : DepositCall)
    (log : MinedLog), call.run vault msg = .ok log.toLog → Agrees vault msg call log := by
  intro h
  have hselected := (h someVault oneEther someDeposit depositLog someDeposit_succeeds).selected
  rcases hselected with ⟨hnative, -⟩ | ⟨htoken, -⟩
  · exact not_selects_native someDeposit_succeeds someVault hnative
  · exact not_selects_token someDeposit_succeeds someVault htoken

end EtherTrade.DepositEventLaws
