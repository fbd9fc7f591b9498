import EtherTrade.MockUsdtLaws
import Mathlib.Tactic.Linarith

/-!
# Ether in the deposit vault

What the logs of the vault say was deposited and swept, and that the ether it holds is what
is left of it, whoever calls whom and however the calls nest. Only ether that came without
a message is not accounted for.
-/

namespace EtherTrade.DepositVaultLaws

open Keccak256 ContractEvents ContractMethods ReentrantCalls DepositContracts
open DepositEventLaws (deposited topic0_deposited)
open DepositContractSteps MockUsdtLaws

variable {D : Deployment} {w w' : World} {m : Message} {r : Except Bytes Bytes}
  {vault contract token token' sender recipient newOwner account : Address} {userId : BitVec 128}
  {amount : Word} {logs more : List Log} {n : ℕ}

/-! ### What a log adds -/

theorem topic0_nativeSweep : nativeSweep.topic0 =
    0x8f1ef682ae99d70933662cd9048ee03e35ae2a5132baf1d610b87a40a12362c8 := by
  decide +kernel

theorem topic0_tokenSweep : tokenSweep.topic0 =
    0x39a3bfd42aa3a6ab14fe516cd2417618c0b46203671179fa38a757f24f5d30c3 := by
  decide +kernel

theorem topic0_ownershipTransferred : ownershipTransferred.topic0 =
    0x8be0079c531659141344cd1fd0a4f28419497f9722a3daafe3b4186f6b6457e0 := by
  decide +kernel

@[simp] theorem deposits_nativeSweepLog :
    deposits vault (logs ++ [nativeSweepLog contract recipient amount]) = deposits vault logs := by
  refine congrArg (List.map _) (Event.observed_emit_of_ne ?_)
  rw [topic0_nativeSweep, topic0_deposited]
  decide

@[simp] theorem deposits_tokenSweepLog :
    deposits vault (logs ++ [tokenSweepLog contract token recipient amount]) =
      deposits vault logs := by
  refine congrArg (List.map _) (Event.observed_emit_of_ne ?_)
  rw [topic0_tokenSweep, topic0_deposited]
  decide

@[simp] theorem deposits_ownershipTransferredLog :
    deposits vault (logs ++ [ownershipTransferredLog contract sender newOwner]) =
      deposits vault logs := by
  refine congrArg (List.map _) (Event.observed_emit_of_ne ?_)
  rw [topic0_ownershipTransferred, topic0_deposited]
  decide

@[simp] theorem nativeSweeps_depositedLog :
    nativeSweeps vault (logs ++ [depositedLog contract userId token amount sender]) =
      nativeSweeps vault logs := by
  refine congrArg (List.map _) (Event.observed_emit_of_ne ?_)
  rw [topic0_nativeSweep, topic0_deposited]
  decide

@[simp] theorem nativeSweeps_tokenSweepLog :
    nativeSweeps vault (logs ++ [tokenSweepLog contract token recipient amount]) =
      nativeSweeps vault logs := by
  refine congrArg (List.map _) (Event.observed_emit_of_ne ?_)
  rw [topic0_nativeSweep, topic0_tokenSweep]
  decide

@[simp] theorem nativeSweeps_ownershipTransferredLog :
    nativeSweeps vault (logs ++ [ownershipTransferredLog contract sender newOwner]) =
      nativeSweeps vault logs := by
  refine congrArg (List.map _) (Event.observed_emit_of_ne ?_)
  rw [topic0_nativeSweep, topic0_ownershipTransferred]
  decide

@[simp] theorem tokenSweeps_depositedLog :
    tokenSweeps vault (logs ++ [depositedLog contract userId token amount sender]) =
      tokenSweeps vault logs := by
  refine congrArg (List.map _) (Event.observed_emit_of_ne ?_)
  rw [topic0_tokenSweep, topic0_deposited]
  decide

@[simp] theorem tokenSweeps_nativeSweepLog :
    tokenSweeps vault (logs ++ [nativeSweepLog contract recipient amount]) =
      tokenSweeps vault logs := by
  refine congrArg (List.map _) (Event.observed_emit_of_ne ?_)
  rw [topic0_tokenSweep, topic0_nativeSweep]
  decide

@[simp] theorem tokenSweeps_ownershipTransferredLog :
    tokenSweeps vault (logs ++ [ownershipTransferredLog contract sender newOwner]) =
      tokenSweeps vault logs := by
  refine congrArg (List.map _) (Event.observed_emit_of_ne ?_)
  rw [topic0_tokenSweep, topic0_ownershipTransferred]
  decide

/-- Logs under other addresses say nothing of the vault. -/
theorem observers_of_address (vault : Address) (logs : List Log)
    (h : ∀ log ∈ more, log.address ≠ vault) :
    deposits vault (logs ++ more) = deposits vault logs ∧
      nativeSweeps vault (logs ++ more) = nativeSweeps vault logs ∧
        tokenSweeps vault (logs ++ more) = tokenSweeps vault logs :=
  ⟨congrArg (List.map _) (Event.observed_of_address h),
    congrArg (List.map _) (Event.observed_of_address h),
    congrArg (List.map _) (Event.observed_of_address h)⟩

/-- What the logs say was deposited of a token; the zero address is ether. -/
def depositedAmount (vault token : Address) (logs : List Log) : ℕ :=
  ((deposits vault logs).map fun (token', amount) => if token' = token then amount.toNat else 0).sum

def sweptEther (vault : Address) (logs : List Log) : ℕ :=
  ((nativeSweeps vault logs).map fun (_, amount) => amount.toNat).sum

def sweptAmount (vault token : Address) (logs : List Log) : ℕ :=
  ((tokenSweeps vault logs).map fun (token', _, amount) =>
    if token' = token then amount.toNat else 0).sum

theorem depositedAmount_depositedLog : depositedAmount vault token
      (logs ++ [depositedLog vault userId token' amount sender]) =
    depositedAmount vault token logs + if token' = token then amount.toNat else 0 := by
  rw [depositedAmount, deposits_depositedLog, List.map_append, List.sum_append, List.map_singleton,
    List.sum_singleton, depositedAmount]

theorem sweptEther_nativeSweepLog :
    sweptEther vault (logs ++ [nativeSweepLog vault recipient amount]) =
      sweptEther vault logs + amount.toNat := by
  rw [sweptEther, nativeSweeps_nativeSweepLog, List.map_append, List.sum_append,
    List.map_singleton, List.sum_singleton, sweptEther]

theorem sweptAmount_tokenSweepLog : sweptAmount vault token
      (logs ++ [tokenSweepLog vault token' recipient amount]) =
    sweptAmount vault token logs + if token' = token then amount.toNat else 0 := by
  rw [sweptAmount, tokenSweeps_tokenSweepLog, List.map_append, List.sum_append,
    List.map_singleton, List.sum_singleton, sweptAmount]

/-! ### Ether -/

theorem ether_pay (hamount : n ≤ w.ether sender) :
    ((Deployment.pay w sender recipient n).ether account : ℤ) =
      w.ether account - (if account = sender then n else 0) +
        (if account = recipient then n else 0) := by
  simp only [Deployment.pay]
  by_cases hrecipient : account = recipient
  · subst hrecipient
    by_cases hsender : account = sender
    · subst hsender
      simp only [Function.update_self, if_true]
      omega
    · simp only [Function.update_self, Function.update_of_ne hsender, if_neg hsender, if_true]
      omega
  · by_cases hsender : account = sender
    · subst hsender
      simp only [Function.update_of_ne hrecipient, Function.update_self, if_true, if_neg hrecipient]
      omega
    · simp only [Function.update_of_ne hrecipient, Function.update_of_ne hsender, if_neg hsender,
        if_neg hrecipient]
      omega

/-- The ether in the vault beyond what is left of deposits and of unsolicited ether. -/
def etherSurplus (D : Deployment) (w : World) : ℤ :=
  w.ether D.vault + sweptEther D.vault w.logs - depositedAmount D.vault 0 w.logs - w.unsolicited

/-- The ether that a message takes from an account. -/
def spent (account : Address) (m : Message) : Except Bytes Bytes → ℕ
  | .ok _ => if account = m.sender then m.value.toNat else 0
  | .error _ => 0

/-- A message changes the surplus by what the vault has sent with it. -/
def KeepsEther (D : Deployment) (m : Message) (w : World) (r : Except Bytes Bytes) (w' : World) :
    Prop := etherSurplus D w' = etherSurplus D w - spent D.vault m r

theorem etherSurplus_pay (hvalue : m.value.toNat ≤ w.ether m.sender) :
    etherSurplus D (Deployment.pay w m.sender m.receiver m.value.toNat) =
      etherSurplus D w - (if D.vault = m.sender then m.value.toNat else 0) +
        (if D.vault = m.receiver then m.value.toNat else 0) := by
  have hether : ((Deployment.pay w m.sender m.receiver m.value.toNat).ether D.vault : ℤ) = _ :=
    ether_pay hvalue
  unfold etherSurplus
  rw [hether]
  simp only [Deployment.pay]
  push_cast
  ring

theorem etherSurplus_depositedLog :
    etherSurplus D (withLog w (depositedLog D.vault userId token amount sender)) =
      etherSurplus D w - (if token = 0 then amount.toNat else 0) := by
  simp only [etherSurplus, withLog, sweptEther, nativeSweeps_depositedLog,
    depositedAmount_depositedLog]
  push_cast
  ring

theorem etherSurplus_nativeSweepLog :
    etherSurplus D (withLog w (nativeSweepLog D.vault recipient amount)) =
      etherSurplus D w + amount.toNat := by
  simp only [etherSurplus, withLog, depositedAmount, deposits_nativeSweepLog,
    sweptEther_nativeSweepLog]
  push_cast
  ring

theorem etherSurplus_tokenSweepLog :
    etherSurplus D (withLog w (tokenSweepLog contract token recipient amount)) =
      etherSurplus D w := by
  simp only [etherSurplus, withLog, depositedAmount, sweptEther, deposits_tokenSweepLog,
    nativeSweeps_tokenSweepLog]

theorem etherSurplus_ownershipTransferredLog :
    etherSurplus D (withLog { w with owner := newOwner }
      (ownershipTransferredLog contract sender newOwner)) = etherSurplus D w := by
  simp only [etherSurplus, withLog, depositedAmount, sweptEther,
    deposits_ownershipTransferredLog, nativeSweeps_ownershipTransferredLog]

/-- What the methods of the token leave as it was. -/
structure UsdtFrame (usdt : Address) (w w' : World) : Prop where
  ether : w'.ether = w.ether
  owner : w'.owner = w.owner
  unsolicited : w'.unsolicited = w.unsolicited
  logs : ∃ more, w'.logs = w.logs ++ more ∧ ∀ log ∈ more, log.address = usdt

theorem UsdtEffect.frame (h : UsdtEffect D.usdt m w w') : UsdtFrame D.usdt w w' := by
  cases h with
  | viewed => exact ⟨rfl, rfl, rfl, [], (List.append_nil _).symm, List.forall_mem_nil _⟩
  | transfer recipient amount t logs output h =>
    obtain ⟨-, -, -, rfl⟩ := transfer_eq_ok h
    exact ⟨rfl, rfl, rfl, _, rfl, fun log hlog => by rw [List.mem_singleton.mp hlog]; rfl⟩
  | approve spender amount t logs output h =>
    obtain ⟨-, rfl⟩ := approve_eq_ok h
    exact ⟨rfl, rfl, rfl, _, rfl, fun log hlog => by rw [List.mem_singleton.mp hlog]; rfl⟩
  | transferFrom sender recipient amount t logs output h =>
    obtain ⟨-, -, -, -, rfl⟩ := transferFrom_eq_ok h
    exact ⟨rfl, rfl, rfl, _, rfl, fun log hlog => by rw [List.mem_singleton.mp hlog]; rfl⟩
  | mint recipient amount t logs output h =>
    obtain ⟨-, -, -, -, rfl⟩ := mintTo_eq_ok (mint_eq_ok h).2
    exact ⟨rfl, rfl, rfl, _, rfl, fun log hlog => by rw [List.mem_singleton.mp hlog]; rfl⟩

theorem UsdtFrame.etherSurplus (h : UsdtFrame D.usdt w w') :
    etherSurplus D w' = etherSurplus D w := by
  obtain ⟨hether, -, hunsolicited, more, hlogs, hmore⟩ := h
  obtain ⟨hdeposits, hnative, -⟩ := observers_of_address D.vault w.logs
    fun log hlog => (hmore log hlog).trans_ne D.distinct.symm
  rw [DepositVaultLaws.etherSurplus, DepositVaultLaws.etherSurplus, hether, hunsolicited, hlogs,
    sweptEther, depositedAmount, hnative, hdeposits, sweptEther, depositedAmount]

/-- The code of another account changes nothing by itself. -/
theorem etherSurplus_changes (h : D.Changes account w w') (haccount : account ≠ D.vault) :
    etherSurplus D w' = etherSurplus D w := by
  cases h with
  | logged log haddress =>
    obtain ⟨hdeposits, hnative, -⟩ := observers_of_address D.vault w.logs
      (List.forall_mem_singleton.mpr (haddress ▸ haccount))
    simp only [etherSurplus, sweptEther, depositedAmount, hdeposits, hnative]
  | destroyed recipient amount hamount =>
    have hether : ((Deployment.pay w account recipient amount).ether D.vault : ℤ) = _ :=
      ether_pay hamount
    simp only [if_neg haccount.symm] at hether
    simp only [etherSurplus, Deployment.unsolicited, hether]
    simp only [Deployment.pay]
    by_cases hrecipient : recipient = D.vault
    · simp only [hrecipient, if_true]
      push_cast
      ring
    · simp only [if_neg hrecipient, if_neg (Ne.symm hrecipient)]
      push_cast
      ring

theorem guarantees_keepsEther : Guarantees D.machine (KeepsEther D) := by
  refine guarantees_of_effects (fun m w error => ?_)
    (fun m w w' output hreceiver hvalue heffect => ?_) (fun m w hreceiver hvalue => ?_) fun m w w' output hvault _ hvalue hmoves => ?_
  · simp [KeepsEther, spent]
  · have hpaid := etherSurplus_pay (D := D) hvalue
    rw [if_pos hreceiver.symm] at hpaid
    cases heffect with
    | viewed hzero => simpa [KeepsEther, spent, hzero] using hpaid
    | depositedNative userId =>
      rw [KeepsEther, etherSurplus_depositedLog, hpaid, if_pos rfl]
      simp [spent]
    | depositedToken userId token amount data w₁ hzero htoken _ hcall =>
      rw [KeepsEther, etherSurplus_depositedLog, if_neg htoken, hcall, hpaid]
      simp [spent, hzero]
    | sweptNative recipient amount data w₁ hzero _ hcall =>
      rw [KeepsEther, etherSurplus_nativeSweepLog, hcall, hpaid]
      simp [spent, hzero]
    | sweptToken token recipient amount data w₁ hzero _ hcall =>
      rw [KeepsEther, etherSurplus_tokenSweepLog, hcall, hpaid]
      simp [spent, hzero]
    | ownershipTransferred newOwner hzero _ =>
      rw [KeepsEther, etherSurplus_ownershipTransferredLog, hpaid]
      simp [spent, hzero]
  · refine usdtCode_ensures.mono fun output w' heffect => ?_
    rw [KeepsEther, (UsdtEffect.frame heffect.2).etherSurplus, etherSurplus_pay hvalue]
    simp [spent, heffect.1]
  · have hsame : etherSurplus D w' = etherSurplus D (Deployment.pay w m.sender m.receiver
        m.value.toNat) := by
      refine moves_preserve (I := fun w' => etherSurplus D w' = etherSurplus D (Deployment.pay w
        m.sender m.receiver m.value.toNat)) hmoves rfl (fun w₁ w₂ h₁ hchanges => ?_)
        fun m' r w₁ w₂ hcode hsender h₁ hspec => ?_
      · rw [etherSurplus_changes hchanges hvault, h₁]
      · have hother : D.vault ≠ m'.sender := by
          rw [hsender]
          exact hvault.symm
        rw [hspec, h₁]
        cases r <;> simp [spent, hother]
    rw [KeepsEther, hsame, etherSurplus_pay hvalue, if_neg hvault.symm]
    simp [spent]

theorem etherSurplus_drift (h : D.machine.drift w w') : etherSurplus D w' = etherSurplus D w := by
  obtain ⟨recipient, amount, rfl⟩ := h
  simp only [etherSurplus, Deployment.unsolicited]
  by_cases hrecipient : recipient = D.vault
  · subst hrecipient
    simp only [Function.update_self, if_true]
    push_cast
    ring
  · simp only [Function.update_of_ne (Ne.symm hrecipient), if_neg hrecipient]

/-- Nothing is deposited or swept yet. -/
theorem observers_constructed (h : D.Constructed w) : deposits D.vault w.logs = [] ∧
    nativeSweeps D.vault w.logs = [] ∧ tokenSweeps D.vault w.logs = [] := by
  obtain ⟨deployer, logs, output, -, hminted, hlogs⟩ := h.usdt
  obtain ⟨-, -, -, -, rfl⟩ := mintTo_eq_ok hminted
  have hother : ∀ log ∈ [transferLog D.usdt 0 deployer 10000000000000], log.address ≠ D.vault :=
    List.forall_mem_singleton.mpr D.distinct.symm
  have hnone (event : Event) :
      event.observed D.vault [transferLog D.usdt 0 deployer 10000000000000] = [] :=
    @Event.observed_of_address event D.vault [] _ hother
  rw [hlogs, deposits_ownershipTransferredLog, nativeSweeps_ownershipTransferredLog,
    tokenSweeps_ownershipTransferredLog, deposits, nativeSweeps, tokenSweeps, hnone, hnone, hnone]
  exact ⟨rfl, rfl, rfl⟩

theorem etherSurplus_constructed (h : D.Constructed w) : etherSurplus D w = 0 := by
  obtain ⟨hdeposits, hnative, -⟩ := observers_constructed h
  simp [etherSurplus, sweptEther, depositedAmount, hdeposits, hnative, h.ether]

theorem spent_transaction (h : D.Transaction m) : spent D.vault m r = 0 := by
  have hsender : D.vault ≠ m.sender := fun heq => D.vault_code (heq ▸ h)
  cases r with
  | error error => rfl
  | ok output => exact if_neg hsender

theorem etherSurplus_reaches (h : D.Reaches w w') : etherSurplus D w' = etherSurplus D w := by
  refine guarantees_keepsEther.leads (I := fun w' => etherSurplus D w' = etherSurplus D w) h rfl
    (fun s s' hs hdrift => ?_) fun m s r s' houtside hs hspec => ?_
  · rw [etherSurplus_drift hdrift, hs]
  · rw [hspec, hs, spent_transaction houtside]
    exact sub_zero _

/-- Ether is never lost and never made up: the vault holds what was deposited, and what came
without a message, less what was swept. -/
theorem vault_ether {w₀ : World} (h₀ : D.Constructed w₀) (h : D.Reaches w₀ w) :
    w.ether D.vault + sweptEther D.vault w.logs =
      depositedAmount D.vault 0 w.logs + w.unsolicited := by
  have hsurplus : etherSurplus D w = 0 := by
    rw [etherSurplus_reaches h, etherSurplus_constructed h₀]
  unfold etherSurplus at hsurplus
  omega

/-- A contract that deposits what comes to it, and sends the vault plain ether. -/
def relayScript (m : Message) : List Message :=
  if m.receiver = 0xc0de then
    [⟨0xc0de, 0xda, 60, encodeWithSelector 0xe74f26e7 [.bytes16] (7, ())⟩, ⟨0xc0de, 0xda, 40, []⟩]
  else []

/-- The world after a payment to that contract. -/
def relayed : World :=
  (devDeployment.machine.interpret relayScript [] 2 ⟨0xb0b, 0xc0de, 100, []⟩ devWorld).2

/-- The deposit has come, the plain ether was refused. -/
theorem relayed_ether : relayed.ether devDeployment.vault = 60 := by
  decide +kernel

theorem leads_relayed :
    Leads devDeployment.machine (fun m => m.sender = 0xb0b) devWorld relayed := by
  refine .single (Or.inr ⟨_, _, rfl, .interpret (fun m m' hm' => ?_) 2 _ _⟩)
  unfold relayScript at hm'
  split at hm'
  · next hreceiver =>
    have hsender : m'.sender = 0xc0de := by
      rcases List.mem_pair.mp hm' with rfl | rfl <;> rfl
    refine ⟨?_, hsender.trans hreceiver.symm⟩
    rw [hreceiver]
    show ¬((0xc0de : Address) = 0xa11ce ∨ (0xc0de : Address) = 0xb0b)
    decide
  · exact absurd hm' List.not_mem_nil

theorem reaches_relayed : devDeployment.Reaches devWorld relayed :=
  leads_relayed.mono fun _ hsender => Or.inr hsender

theorem vault_ether_relayed : relayed.ether devDeployment.vault = 60 ∧
    relayed.ether devDeployment.vault + sweptEther devDeployment.vault relayed.logs =
      depositedAmount devDeployment.vault 0 relayed.logs + relayed.unsolicited :=
  ⟨relayed_ether, vault_ether constructed_devWorld reaches_relayed⟩

end EtherTrade.DepositVaultLaws
