import EtherTrade.DepositVaultLaws

/-!
# Tokens in the deposit vault, and who may take them

The vault never allows anybody to take its tokens, so that it holds at least what its logs
say was deposited and not yet swept. Without a transaction of its owner nothing leaves it.
-/

namespace EtherTrade.DepositVaultBacking

open Keccak256 ContractEvents ContractMethods ReentrantCalls DepositContracts
open DepositContractSteps MockUsdtLaws DepositVaultLaws

variable {D : Deployment} {w w' : World} {m : Message} {r : Except Bytes Bytes}
  {vault usdt contract token sender recipient newOwner account : Address} {userId : BitVec 128}
  {amount : Word} {logs : List Log} {output : Bytes}
  {Spec : Message → World → Except Bytes Bytes → World → Prop}

/-! ### Calls of the token by the vault -/

theorem selector_transfer : ((usdtMethods usdt).get ⟨0, (by decide : 0 < 8)⟩).selector =
    0xa9059cbb :=
  Method.selector_of_signature rfl rfl
    (by decide +kernel : "transfer" ++ "(" ++ ",".intercalate ["address", "uint256"] ++ ")" =
      "transfer(address,uint256)") (by decide +kernel)

theorem selector_approve : ((usdtMethods usdt).get ⟨1, (by decide : 1 < 8)⟩).selector =
    0x095ea7b3 :=
  Method.selector_of_signature rfl rfl
    (by decide +kernel : "approve" ++ "(" ++ ",".intercalate ["address", "uint256"] ++ ")" =
      "approve(address,uint256)") (by decide +kernel)

theorem selector_transferFrom : ((usdtMethods usdt).get ⟨2, (by decide : 2 < 8)⟩).selector =
    0x23b872dd :=
  Method.selector_of_signature rfl rfl
    (by decide +kernel : "transferFrom" ++ "(" ++
      ",".intercalate ["address", "address", "uint256"] ++ ")" =
        "transferFrom(address,address,uint256)") (by decide +kernel)

/-- The selector that `sweepToken` writes is that of `transfer`. -/
theorem usdtCode_transfer (hdata : m.data = transferData recipient amount) (hvalue : m.value = 0) :
    usdtCode usdt m = onUsdt fun t => t.transfer usdt m.sender recipient amount := by
  have hfind : (usdtMethods usdt).find? (fun f => f.selector = 0xa9059cbb) =
      some ((usdtMethods usdt).get ⟨0, (by decide : 0 < 8)⟩) :=
    List.find?_cons_of_pos (decide_eq_true selector_transfer)
  exact dispatch_encode hfind hdata fun _ => hvalue

theorem usdtCode_approve (hdata : m.data = encodeWithSelector 0x095ea7b3 [.address, .uint256]
    (recipient, amount, ())) (hvalue : m.value = 0) :
    usdtCode usdt m = onUsdt fun t => t.approve usdt m.sender recipient amount := by
  have hfind : (usdtMethods usdt).find? (fun f => f.selector = 0x095ea7b3) =
      some ((usdtMethods usdt).get ⟨1, (by decide : 1 < 8)⟩) := by
    refine (find_selector_of_ne selector_transfer (by decide)).trans ?_
    exact List.find?_cons_of_pos (decide_eq_true selector_approve)
  exact dispatch_encode hfind hdata fun _ => hvalue

/-- The selector that `depositToken` writes is that of `transferFrom`. -/
theorem usdtCode_transferFrom (hdata : m.data = transferFromData sender recipient amount)
    (hvalue : m.value = 0) :
    usdtCode usdt m = onUsdt fun t => t.transferFrom usdt m.sender sender recipient amount := by
  have hfind : (usdtMethods usdt).find? (fun f => f.selector = 0x23b872dd) =
      some ((usdtMethods usdt).get ⟨2, (by decide : 2 < 8)⟩) := by
    refine (find_selector_of_ne selector_transfer (by decide)).trans ?_
    refine (find_selector_of_ne selector_approve (by decide)).trans ?_
    exact List.find?_cons_of_pos (decide_eq_true selector_transferFrom)
  exact dispatch_encode hfind hdata fun _ => hvalue

/-! ### Tokens -/

/-- The vault has allowed nobody to take its tokens. -/
def AllowsNone (D : Deployment) (w : World) : Prop :=
  ∀ spender, w.usdt.allowance D.vault spender = 0

/-- The tokens in the vault beyond what is left of deposits. -/
def usdtSurplus (D : Deployment) (w : World) : ℤ :=
  (w.usdt.balanceOf D.vault).toNat + sweptAmount D.vault D.usdt w.logs -
    depositedAmount D.vault D.usdt w.logs

/-- Nobody takes tokens of the vault that are left of deposits. -/
structure Backed (D : Deployment) (w w' : World) : Prop where
  allowsNone : AllowsNone D w'
  surplus : usdtSurplus D w ≤ usdtSurplus D w'

theorem usdtSurplus_depositedLog :
    usdtSurplus D (withLog w (depositedLog D.vault userId token amount sender)) =
      usdtSurplus D w - (if token = D.usdt then amount.toNat else 0) := by
  simp only [usdtSurplus, withLog, sweptAmount, tokenSweeps_depositedLog,
    depositedAmount_depositedLog]
  push_cast
  ring

theorem usdtSurplus_tokenSweepLog :
    usdtSurplus D (withLog w (tokenSweepLog D.vault token recipient amount)) =
      usdtSurplus D w + (if token = D.usdt then amount.toNat else 0) := by
  simp only [usdtSurplus, withLog, depositedAmount, deposits_tokenSweepLog,
    sweptAmount_tokenSweepLog]
  push_cast
  ring

theorem usdtSurplus_nativeSweepLog :
    usdtSurplus D (withLog w (nativeSweepLog contract recipient amount)) = usdtSurplus D w := by
  simp only [usdtSurplus, withLog, depositedAmount, sweptAmount, deposits_nativeSweepLog,
    tokenSweeps_nativeSweepLog]

theorem usdtSurplus_ownershipTransferredLog :
    usdtSurplus D (withLog { w with owner := newOwner }
      (ownershipTransferredLog contract sender newOwner)) = usdtSurplus D w := by
  simp only [usdtSurplus, withLog, depositedAmount, sweptAmount,
    deposits_ownershipTransferredLog, tokenSweeps_ownershipTransferredLog]

/-- Logs of others count neither as deposits nor as sweeps. -/
theorem usdtSurplus_of_address {more : List Log} (h : ∀ log ∈ more, log.address ≠ D.vault)
    (hlogs : w'.logs = w.logs ++ more) : usdtSurplus D w' =
      usdtSurplus D w + (w'.usdt.balanceOf D.vault).toNat - (w.usdt.balanceOf D.vault).toNat := by
  obtain ⟨hdeposits, -, htoken⟩ := observers_of_address D.vault w.logs h
  simp only [usdtSurplus, depositedAmount, sweptAmount, hlogs, hdeposits, htoken]
  ring

theorem address_transferLog : ∀ log ∈ [transferLog D.usdt sender recipient amount],
    log.address ≠ D.vault := List.forall_mem_singleton.mpr D.distinct.symm

/-- What `transferFrom` does to an account that has allowed nobody to take its tokens. -/
theorem transferFrom_allowsNone {t t' : MockUsdt} {logs : List Log} {output : Bytes}
    {msgSender : Address}
    (h : t.transferFrom usdt msgSender sender recipient amount = .ok (t', logs, output))
    (hnone : ∀ spender, t.allowance account spender = 0) :
    (sender = account → amount = 0) ∧ (∀ spender, t'.allowance account spender = 0) ∧
      (t'.balanceOf account).toNat =
        (t.balanceOf account).toNat + (if account = recipient then amount.toNat else 0) := by
  obtain ⟨-, hallowed, hmoved, -, -⟩ := transferFrom_eq_ok h
  have hzero (hsender : sender = account) : amount = 0 := by
    rw [hsender, hnone, BitVec.lt_def] at hallowed
    exact BitVec.eq_of_toNat_eq (Nat.eq_zero_of_not_pos hallowed)
  have hbalance : (t'.balanceOf account).toNat + (if account = sender then amount.toNat else 0) =
      (t.balanceOf account).toNat + (if account = recipient then amount.toNat else 0) := by
    refine (hmoved.balance account).trans ?_
    split <;> rfl
  refine ⟨hzero, fun spender => ?_, ?_⟩
  · rw [hmoved.allowance]
    split
    · exact hnone spender
    · by_cases hsender : account = sender
      · subst hsender
        rw [hzero rfl, hnone]
        by_cases hspender : spender = msgSender
        · simp [MockUsdt.setAllowance, hspender]
        · simpa [MockUsdt.setAllowance, Function.update_of_ne hspender] using hnone spender
      · simpa [MockUsdt.setAllowance, Function.update_of_ne hsender] using hnone spender
  · by_cases hsender : account = sender
    · rw [hzero hsender.symm] at hbalance ⊢
      simpa using hbalance
    · rwa [if_neg hsender] at hbalance

/-- What the methods of the token do when the vault has not called them. -/
theorem UsdtEffect.backed (h : UsdtEffect D.usdt m w w') (hsender : m.sender ≠ D.vault)
    (hnone : AllowsNone D w) : Backed D w w' := by
  cases h with
  | viewed => exact ⟨hnone, le_rfl⟩
  | transfer recipient amount t logs output h =>
    obtain ⟨-, hmoved, -, rfl⟩ := transfer_eq_ok h
    have hbalance := hmoved.balance D.vault
    rw [if_neg hsender.symm] at hbalance
    refine ⟨fun spender => by rw [hmoved.allowance]; exact hnone spender, ?_⟩
    refine le_of_le_of_eq ?_ (usdtSurplus_of_address address_transferLog rfl).symm
    dsimp only
    omega
  | approve spender amount t logs output h =>
    obtain ⟨rfl, rfl⟩ := approve_eq_ok h
    refine ⟨fun spender' => ?_, ?_⟩
    · simpa [MockUsdt.setAllowance, Function.update_of_ne hsender.symm] using hnone spender'
    · have hlog : ∀ log ∈ [approvalLog D.usdt m.sender spender amount], log.address ≠ D.vault :=
        List.forall_mem_singleton.mpr D.distinct.symm
      refine le_of_le_of_eq ?_ (usdtSurplus_of_address hlog rfl).symm
      simp [MockUsdt.setAllowance]
  | transferFrom sender recipient amount t logs output h =>
    obtain ⟨-, hallowance, hbalance⟩ := transferFrom_allowsNone h hnone
    obtain ⟨-, -, -, -, rfl⟩ := transferFrom_eq_ok h
    refine ⟨hallowance, ?_⟩
    refine le_of_le_of_eq ?_ (usdtSurplus_of_address address_transferLog rfl).symm
    dsimp only
    omega
  | mint recipient amount t logs output h =>
    obtain ⟨-, hbalance, hallowance, -, rfl⟩ := mintTo_eq_ok (mint_eq_ok h).2
    have hbalance := hbalance D.vault
    refine ⟨fun spender => by rw [hallowance]; exact hnone spender, ?_⟩
    refine le_of_le_of_eq ?_ (usdtSurplus_of_address address_transferLog rfl).symm
    dsimp only
    omega

/-- What a deposit of tokens brings, which the vault takes from the depositor. -/
theorem backed_transferFrom
    (h : w.usdt.transferFrom D.usdt D.vault sender D.vault amount = .ok (w'.usdt, logs, output))
    (hlogs : w'.logs = w.logs ++ logs) (hnone : AllowsNone D w) :
    AllowsNone D w' ∧ usdtSurplus D w' = usdtSurplus D w + amount.toNat := by
  obtain ⟨-, hallowance, hbalance⟩ := transferFrom_allowsNone h hnone
  obtain ⟨-, -, -, -, rfl⟩ := transferFrom_eq_ok h
  refine ⟨hallowance, ?_⟩
  rw [usdtSurplus_of_address address_transferLog hlogs, hbalance, if_pos rfl]
  push_cast
  ring

/-- What a sweep of tokens takes. -/
theorem backed_transfer
    (h : w.usdt.transfer D.usdt D.vault recipient amount = .ok (w'.usdt, logs, output))
    (hlogs : w'.logs = w.logs ++ logs) (hnone : AllowsNone D w) :
    AllowsNone D w' ∧ usdtSurplus D w ≤ usdtSurplus D w' + amount.toNat := by
  obtain ⟨-, hmoved, -, rfl⟩ := transfer_eq_ok h
  have hbalance := hmoved.balance D.vault
  rw [if_pos rfl] at hbalance
  refine ⟨fun spender => by rw [hmoved.allowance]; exact hnone spender, ?_⟩
  rw [usdtSurplus_of_address address_transferLog hlogs]
  omega

/-! ### All calls -/

/-- What a message to the token does, as its code says. -/
def RunsUsdt (D : Deployment) (m : Message) (w : World) (output : Bytes) (w' : World) : Prop :=
  ∀ Q, (usdtCode D.usdt m).Ensures (fun _ _ _ _ => True) Q
    (Deployment.pay w m.sender m.receiver m.value.toNat) → Q output w'

/-- What a message does to the tokens of the vault. What the token does when the vault calls it
is left to its code. -/
def KeepsTokens (D : Deployment) (m : Message) (w : World) (r : Except Bytes Bytes) (w' : World) :
    Prop :=
  match r with
  | .error _ => w' = w
  | .ok output =>
    if m.sender = D.vault ∧ m.receiver = D.usdt then RunsUsdt D m w output w'
    else AllowsNone D w → Backed D w w'

theorem KeepsTokens.of_ne (h : KeepsTokens D m w r w')
    (hm : ¬(m.sender = D.vault ∧ m.receiver = D.usdt)) (hnone : AllowsNone D w) :
    Backed D w w' := by
  cases r with
  | error error =>
    cases h
    exact ⟨hnone, le_rfl⟩
  | ok output =>
    simp only [KeepsTokens, if_neg hm] at h
    exact h hnone

/-- The vault's calls of the token, which its code decides. -/
theorem KeepsTokens.exists_method {data : Bytes} {method : MockUsdt → UsdtResult} {output : Bytes}
    (h : KeepsTokens D ⟨D.vault, D.usdt, 0, data⟩ w (.ok output) w')
    (hcode : usdtCode D.usdt ⟨D.vault, D.usdt, 0, data⟩ = onUsdt method) :
    ∃ logs output, method w.usdt = .ok (w'.usdt, logs, output) ∧ w'.logs = w.logs ++ logs := by
  simp only [KeepsTokens, and_self, if_true, RunsUsdt, hcode] at h
  refine h (fun _ w' => ∃ logs output, method w.usdt = .ok (w'.usdt, logs, output) ∧
    w'.logs = w.logs ++ logs) (onUsdt_ensures fun t logs output hmethod => ?_)
  exact ⟨logs, output, hmethod, rfl⟩

/-- The token refuses plain ether. -/
theorem KeepsTokens.not_plain {value : Word} {output : Bytes} :
    ¬KeepsTokens D ⟨D.vault, D.usdt, value, []⟩ w (.ok output) w' := by
  intro h
  simp only [KeepsTokens, and_self, if_true, RunsUsdt] at h
  exact h (fun _ _ => False) trivial

theorem Backed.withLog (h : Backed D w w') {log : Log}
    (hlog : usdtSurplus D (withLog w' log) = usdtSurplus D w') : Backed D w (withLog w' log) :=
  ⟨h.allowsNone, h.surplus.trans_eq hlog.symm⟩

theorem Backed.of_pay {n : ℕ} (h : Backed D (Deployment.pay w sender recipient n) w') :
    Backed D w w' := ⟨h.allowsNone, h.surplus⟩

/-- What the methods of the vault do, when the messages they send do what they may. -/
theorem VaultEffect.backed (h : VaultEffect D.vault (KeepsTokens D) m w w')
    (hnone : AllowsNone D w) : Backed D w w' := by
  cases h with
  | viewed => exact ⟨hnone, le_rfl⟩
  | depositedNative userId =>
    refine Backed.withLog ⟨hnone, le_rfl⟩ ?_
    rw [usdtSurplus_depositedLog, if_neg D.usdt_nonzero.symm]
    exact sub_zero _
  | depositedToken userId token amount data w₁ hzero _ hamount hcall =>
    by_cases htoken : token = D.usdt
    · subst htoken
      obtain ⟨logs, output, htransfer, hlogs⟩ :=
        hcall.exists_method (usdtCode_transferFrom rfl rfl)
      obtain ⟨hnone', hsurplus⟩ := backed_transferFrom htransfer hlogs hnone
      refine ⟨hnone', ?_⟩
      rw [usdtSurplus_depositedLog, if_pos rfl, hsurplus]
      exact (add_sub_cancel_right _ _).ge
    · refine (hcall.of_ne (fun h => htoken h.2) hnone).withLog ?_
      rw [usdtSurplus_depositedLog, if_neg htoken]
      exact sub_zero _
  | sweptNative recipient amount data w₁ hzero _ hcall =>
    by_cases hrecipient : recipient = D.usdt
    · subst hrecipient
      exact absurd hcall KeepsTokens.not_plain
    · exact (hcall.of_ne (fun h => hrecipient h.2) hnone).withLog usdtSurplus_nativeSweepLog
  | sweptToken token recipient amount data w₁ hzero _ hcall =>
    by_cases htoken : token = D.usdt
    · subst htoken
      obtain ⟨logs, output, htransfer, hlogs⟩ := hcall.exists_method (usdtCode_transfer rfl rfl)
      obtain ⟨hnone', hsurplus⟩ := backed_transfer htransfer hlogs hnone
      refine ⟨hnone', ?_⟩
      rw [usdtSurplus_tokenSweepLog, if_pos rfl]
      exact hsurplus
    · refine (hcall.of_ne (fun h => htoken h.2) hnone).withLog ?_
      rw [usdtSurplus_tokenSweepLog, if_neg htoken]
      exact add_zero _
  | ownershipTransferred newOwner hzero _ =>
    exact ⟨hnone, usdtSurplus_ownershipTransferredLog.ge⟩

theorem backed_changes {w₁ w₂ : World} (h : D.Changes account w₁ w₂) (haccount : account ≠ D.vault)
    (h₁ : Backed D w w₁) : Backed D w w₂ := by
  cases h with
  | logged log haddress =>
    have hlog : ∀ log' ∈ [log], log'.address ≠ D.vault :=
      List.forall_mem_singleton.mpr (haddress ▸ haccount)
    refine h₁.withLog ((usdtSurplus_of_address hlog rfl).trans ?_)
    exact add_sub_cancel_right _ _
  | destroyed => exact ⟨h₁.allowsNone, h₁.surplus⟩

theorem guarantees_keepsTokens : Guarantees D.machine (KeepsTokens D) := by
  refine guarantees_of_effects (fun m w error => rfl)
    (fun m w w' output hreceiver _ heffect => ?_) (fun m w hreceiver _ => ?_)
    fun m w w' output hvault husdt _ hmoves => ?_
  · have hother : ¬(m.sender = D.vault ∧ m.receiver = D.usdt) :=
      fun h => D.distinct (hreceiver.symm.trans h.2)
    rw [KeepsTokens, if_neg hother]
    exact fun hnone => (VaultEffect.backed heffect hnone).of_pay
  · by_cases hsender : m.sender = D.vault
    · have hruns : (usdtCode D.usdt m).Ensures (KeepsTokens D) (RunsUsdt D m w)
          (Deployment.pay w m.sender m.receiver m.value.toNat) := usdtCode_silent.ensures
      refine hruns.mono fun output w' h => ?_
      rw [KeepsTokens, if_pos ⟨hsender, hreceiver⟩]
      exact h
    · refine usdtCode_ensures.mono fun output w' heffect => ?_
      rw [KeepsTokens, if_neg fun h => hsender h.1]
      exact fun hnone => (UsdtEffect.backed heffect.2 hsender hnone).of_pay
  · rw [KeepsTokens, if_neg fun h => husdt h.2]
    intro hnone
    refine moves_preserve (I := Backed D w) hmoves ⟨hnone, le_rfl⟩ (fun w₁ w₂ h₁ hchanges => ?_)
      fun m' r w₁ w₂ _ hsender h₁ hspec => ?_
    · exact backed_changes hchanges hvault h₁
    · have hother : ¬(m'.sender = D.vault ∧ m'.receiver = D.usdt) :=
        fun h => hvault (hsender.symm.trans h.1)
      have hnext := hspec.of_ne hother h₁.allowsNone
      exact ⟨hnext.allowsNone, h₁.surplus.trans hnext.surplus⟩

theorem allowsNone_constructed (h : D.Constructed w) : AllowsNone D w := by
  obtain ⟨deployer, logs, output, -, hminted, -⟩ := h.usdt
  obtain ⟨-, -, hallowance, -, -⟩ := mintTo_eq_ok hminted
  intro spender
  rw [hallowance]

theorem usdtSurplus_constructed (h : D.Constructed w) : 0 ≤ usdtSurplus D w := by
  obtain ⟨hdeposits, -, htoken⟩ := observers_constructed h
  simp [usdtSurplus, sweptAmount, depositedAmount, hdeposits, htoken]

theorem backed_leads {Outside : Message → Prop} (hsender : ∀ m, Outside m → D.Transaction m)
    (h : Leads D.machine Outside w w') (hnone : AllowsNone D w) : Backed D w w' := by
  refine guarantees_keepsTokens.leads (I := Backed D w) h ⟨hnone, le_rfl⟩
    (fun s s' hs hdrift => ?_) fun m s r s' houtside hs hspec => ?_
  · obtain ⟨recipient, amount, rfl⟩ := hdrift
    exact ⟨hs.allowsNone, hs.surplus⟩
  · have hother : ¬(m.sender = D.vault ∧ m.receiver = D.usdt) :=
      fun h => D.vault_code (h.1 ▸ hsender m houtside)
    have hnext := hspec.of_ne hother hs.allowsNone
    exact ⟨hnext.allowsNone, hs.surplus.trans hnext.surplus⟩

/-- The vault holds the tokens that its logs say were deposited and not swept, whatever other
accounts do, and nobody is allowed to take them. -/
theorem vault_usdt {w₀ : World} (h₀ : D.Constructed w₀) (h : D.Reaches w₀ w) :
    depositedAmount D.vault D.usdt w.logs ≤
        (w.usdt.balanceOf D.vault).toNat + sweptAmount D.vault D.usdt w.logs ∧
      ∀ spender, w.usdt.allowance D.vault spender = 0 := by
  have hbacked : Backed D w₀ w := backed_leads (fun _ => id) h (allowsNone_constructed h₀)
  have hsurplus := (usdtSurplus_constructed h₀).trans hbacked.surplus
  refine ⟨?_, hbacked.allowsNone⟩
  unfold usdtSurplus at hsurplus
  omega

/-- The world after some call of the deployer. -/
def afterCall (w : World) (receiver : Address) (data : Bytes) : World :=
  (devDeployment.machine.interpret (fun _ => []) [] 2 ⟨0xa11ce, receiver, 0, data⟩ w).2

theorem reaches_afterCall (receiver : Address) (data : Bytes) :
    devDeployment.Reaches w (afterCall w receiver data) :=
  .single (Or.inr ⟨_, _, Or.inl rfl, .interpret (fun _ => List.forall_mem_nil _) 2 _ _⟩)

/-- The deployer allows the vault to take tokens, and deposits some of them. -/
def funded : World :=
  afterCall (afterCall devWorld 0x5d (encodeWithSelector 0x095ea7b3 [.address, .uint256]
    (0xda, 50, ()))) 0xda (encodeWithSelector 0xc92f5442 [.bytes16, .address, .uint256]
      (7, 0x5d, 30, ()))

theorem selector_owner : ((vaultMethods vault).get ⟨0, (by decide : 0 < 6)⟩).selector =
    0x8da5cb5b :=
  Method.selector_of_signature rfl rfl
    (by decide +kernel : "owner" ++ "(" ++ ",".intercalate [] ++ ")" = "owner()")
    (by decide +kernel)

theorem selector_depositNative : ((vaultMethods vault).get ⟨1, (by decide : 1 < 6)⟩).selector =
    0xe74f26e7 :=
  Method.selector_of_signature rfl rfl
    (by decide +kernel : "depositNative" ++ "(" ++ ",".intercalate ["bytes16"] ++ ")" =
      "depositNative(bytes16)") (by decide +kernel)

theorem selector_depositToken : ((vaultMethods vault).get ⟨2, (by decide : 2 < 6)⟩).selector =
    0xc92f5442 :=
  Method.selector_of_signature rfl rfl
    (by decide +kernel : "depositToken" ++ "(" ++
      ",".intercalate ["bytes16", "address", "uint256"] ++ ")" =
        "depositToken(bytes16,address,uint256)") (by decide +kernel)

theorem vaultCode_depositToken (hdata : m.data = encodeWithSelector 0xc92f5442
    [.bytes16, .address, .uint256] (userId, token, amount, ())) (hvalue : m.value = 0) :
    vaultCode vault m = noOutput (depositToken vault m userId token amount) := by
  have hfind : (vaultMethods vault).find? (fun f => f.selector = 0xc92f5442) =
      some ((vaultMethods vault).get ⟨2, (by decide : 2 < 6)⟩) := by
    refine (find_selector_of_ne (@selector_owner vault) (by decide)).trans ?_
    refine (find_selector_of_ne (@selector_depositNative vault) (by decide)).trans ?_
    exact List.find?_cons_of_pos (decide_eq_true selector_depositToken)
  exact dispatch_encode hfind hdata fun _ => hvalue

section Interpret

variable {answer : Message → World → Except Bytes Bytes × World} {script : Message → List Message}
  {fuel : ℕ} {method : MockUsdt → UsdtResult} {t : MockUsdt} {data : Bytes}

theorem runWith_onUsdt (h : method w.usdt = .ok (t, logs, output)) :
    (onUsdt method).runWith answer w =
      .ok (output, { w with usdt := t, logs := w.logs ++ logs }) := by
  rw [onUsdt, Program.runWith_read_bind, h]
  rfl

theorem requireTransferred_returnsTrue : requireTransferred (.ok returnsTrue) = pure ⟨⟩ := by
  have hword : ofBytes 256 returnsTrue = (1 : Word) := @ofBytes_toBytes 32 (1 : Word)
  have hlength : returnsTrue.length = 32 := length_toBytes _
  have htake : returnsTrue.take 32 = returnsTrue := List.take_of_length_le hlength.le
  have hfailed : DepositEventLaws.transferFailed (callResult (.ok returnsTrue)) = .ok false := by
    simp [DepositEventLaws.transferFailed, DepositEventLaws.decodeBool, callResult, hlength, htake,
      hword, Except.map]
  rw [requireTransferred, hfailed]

theorem runWith_depositToken (htoken : token ≠ 0) (hamount : amount ≠ 0)
    (hanswer : answer ⟨vault, token, 0, transferFromData m.sender vault amount⟩ w =
      (.ok returnsTrue, w')) :
    (noOutput (depositToken vault m userId token amount)).runWith answer w =
      .ok ([], withLog w' (depositedLog vault userId token amount m.sender)) := by
  rw [depositToken, if_neg htoken, if_neg hamount]
  change Program.runWith answer (noOutput (do
    requireTransferred (answer ⟨vault, token, 0, transferFromData m.sender vault amount⟩ w).1
    emit (depositedLog vault userId token amount m.sender)))
    (answer ⟨vault, token, 0, transferFromData m.sender vault amount⟩ w).2 = _
  rw [hanswer, requireTransferred_returnsTrue]
  rfl

/-- A message that the token answers. -/
theorem interpret_usdt (hreceiver : m.receiver = D.usdt) (hvalue : m.value = 0)
    (hcode : usdtCode D.usdt m = onUsdt method) (h : method w.usdt = .ok (t, logs, output)) :
    D.machine.interpret script [] (fuel + 1) m w =
      (.ok output,
        { Deployment.pay w m.sender m.receiver 0 with usdt := t, logs := w.logs ++ logs }) := by
  refine Machine.interpret_of_runWith (if_pos ?_) (?_ : _ = some (onUsdt method)) ?_
  · rw [hvalue]
    exact Nat.zero_le _
  · rw [← hcode]
    exact (if_neg fun h => D.distinct (h.symm.trans hreceiver)).trans (if_pos hreceiver)
  · rw [hvalue]
    exact runWith_onUsdt h

/-- A deposit that the token agrees to. -/
theorem interpret_depositToken (hreceiver : m.receiver = D.vault) (hvalue : m.value = 0)
    (hdata : m.data = encodeWithSelector 0xc92f5442 [.bytes16, .address, .uint256]
      (userId, token, amount, ())) (htoken : token ≠ 0) (hamount : amount ≠ 0)
    (hanswer : D.machine.interpret script [] fuel
      ⟨D.vault, token, 0, transferFromData m.sender D.vault amount⟩
      (Deployment.pay w m.sender m.receiver 0) = (.ok returnsTrue, w')) :
    D.machine.interpret script [] (fuel + 1) m w =
      (.ok [], withLog w' (depositedLog D.vault userId token amount m.sender)) := by
  refine Machine.interpret_of_runWith (if_pos ?_) (if_pos hreceiver) ?_
  · rw [hvalue]
    exact Nat.zero_le _
  · rw [vaultCode_depositToken hdata hvalue, hvalue]
    exact runWith_depositToken htoken hamount hanswer

theorem afterCall_usdt (hcode : usdtCode 0x5d ⟨0xa11ce, 0x5d, 0, data⟩ = onUsdt method)
    (h : method w.usdt = .ok (t, logs, output)) : (afterCall w 0x5d data).usdt = t := by
  have hrun : devDeployment.machine.interpret (fun _ => []) [] (1 + 1) ⟨0xa11ce, 0x5d, 0, data⟩ w =
      (.ok output, _) := interpret_usdt rfl rfl hcode h
  exact congrArg (fun r => r.2.usdt) hrun

theorem afterCall_depositToken (hdata : data = encodeWithSelector 0xc92f5442
      [.bytes16, .address, .uint256] (userId, 0x5d, amount, ())) (hamount : amount ≠ 0)
    (h : w.usdt.transferFrom 0x5d 0xda 0xa11ce 0xda amount = .ok (t, logs, returnsTrue)) :
    (afterCall w 0xda data).usdt = t := by
  have hanswer : devDeployment.machine.interpret (fun _ => []) [] (0 + 1)
      ⟨0xda, 0x5d, 0, transferFromData 0xa11ce 0xda amount⟩ (Deployment.pay w 0xa11ce 0xda 0) =
        (.ok returnsTrue, _) := interpret_usdt rfl rfl (usdtCode_transferFrom rfl rfl) h
  have hrun : devDeployment.machine.interpret (fun _ => []) [] (1 + 1) ⟨0xa11ce, 0xda, 0, data⟩ w =
      (.ok [], _) :=
    interpret_depositToken rfl rfl hdata (by decide : (0x5d : Address) ≠ 0) hamount hanswer
  exact congrArg (fun r => r.2.usdt) hrun

-- evaluated call by call: the whole run computes the hash of every selector it passes
theorem funded_balanceOf : funded.usdt.balanceOf 0xda = 30 := by
  have happroved : (afterCall devWorld 0x5d (encodeWithSelector 0x095ea7b3 [.address, .uint256]
      (0xda, 50, ()))).usdt = devWorld.usdt.setAllowance 0xa11ce 0xda 50 :=
    afterCall_usdt (usdtCode_approve rfl rfl) rfl
  obtain ⟨t, logs, htransfer, hbalance⟩ : ∃ t logs,
      (devWorld.usdt.setAllowance 0xa11ce 0xda 50).transferFrom 0x5d 0xda 0xa11ce 0xda 30 =
        .ok (t, logs, returnsTrue) ∧ t.balanceOf 0xda = 30 := ⟨_, _, rfl, by decide⟩
  rw [← happroved] at htransfer
  have hfunded : funded.usdt = t := by
    rw [funded]
    exact afterCall_depositToken rfl (by decide : (30 : Word) ≠ 0) htransfer
  rw [hfunded]
  exact hbalance

end Interpret

theorem vault_usdt_funded : funded.usdt.balanceOf 0xda = 30 ∧
    depositedAmount devDeployment.vault devDeployment.usdt funded.logs ≤
        (funded.usdt.balanceOf devDeployment.vault).toNat +
          sweptAmount devDeployment.vault devDeployment.usdt funded.logs ∧
      ∀ spender, funded.usdt.allowance devDeployment.vault spender = 0 :=
  ⟨funded_balanceOf, vault_usdt constructed_devWorld
    ((reaches_afterCall 0x5d _).trans (reaches_afterCall 0xda _))⟩

/-! ### Who may take it -/

/-- What the vault's owner alone may change is as it was, and what came in stays. -/
structure Untouched (D : Deployment) (w w' : World) : Prop where
  owner : w'.owner = w.owner
  nativeSweeps : nativeSweeps D.vault w'.logs = nativeSweeps D.vault w.logs
  tokenSweeps : tokenSweeps D.vault w'.logs = tokenSweeps D.vault w.logs
  deposits : deposits D.vault w.logs <+: deposits D.vault w'.logs
  unsolicited : w.unsolicited ≤ w'.unsolicited

@[refl] theorem Untouched.refl (w : World) : Untouched D w w :=
  ⟨rfl, rfl, rfl, List.prefix_rfl, le_rfl⟩

theorem Untouched.trans {w'' : World} (h : Untouched D w w') (h' : Untouched D w' w'') :
    Untouched D w w'' :=
  ⟨h'.owner.trans h.owner, h'.nativeSweeps.trans h.nativeSweeps,
    h'.tokenSweeps.trans h.tokenSweeps, h.deposits.trans h'.deposits,
    h.unsolicited.trans h'.unsolicited⟩

/-- Logs of others, or of a deposit. -/
theorem Untouched.of_address {more : List Log} (hlogs : w'.logs = w.logs ++ more)
    (hmore : ∀ log ∈ more, log.address ≠ D.vault) (howner : w'.owner = w.owner)
    (hunsolicited : w.unsolicited ≤ w'.unsolicited) : Untouched D w w' := by
  obtain ⟨hdeposits, hnative, htoken⟩ := observers_of_address D.vault w.logs hmore
  rw [← hlogs] at hdeposits hnative htoken
  exact ⟨howner, hnative, htoken, hdeposits ▸ List.prefix_rfl, hunsolicited⟩

theorem untouched_depositedLog :
    Untouched D w (withLog w (depositedLog D.vault userId token amount sender)) :=
  ⟨rfl, nativeSweeps_depositedLog, tokenSweeps_depositedLog,
    ⟨_, deposits_depositedLog.symm⟩, le_rfl⟩

theorem unsolicited_le (recipient : Address) (n : ℕ) :
    w.unsolicited ≤ (D.unsolicited w recipient n).unsolicited := by
  dsimp only [Deployment.unsolicited]
  split
  · exact Nat.le_add_right _ _
  · exact le_rfl

theorem untouched_changes (h : D.Changes account w w') (haccount : account ≠ D.vault) :
    Untouched D w w' := by
  cases h with
  | logged log haddress =>
    exact .of_address rfl (List.forall_mem_singleton.mpr (haddress ▸ haccount)) rfl le_rfl
  | destroyed recipient amount =>
    exact ⟨rfl, rfl, rfl, List.prefix_rfl, unsolicited_le recipient amount⟩

/-- Without a message of the owner, an account without code, the vault is left as it was. -/
def LeavesVault (D : Deployment) (m : Message) (w : World) (_ : Except Bytes Bytes) (w' : World) :
    Prop := D.external w.owner → m.sender ≠ w.owner → Untouched D w w'

theorem guarantees_leavesVault : Guarantees D.machine (LeavesVault D) := by
  refine guarantees_of_effects (fun m w error _ _ => .refl w)
    (fun m w w' output _ _ heffect hexternal hsender => ?_) (fun m w hreceiver _ => ?_)
    fun m w w' output hvault husdt _ hmoves hexternal hsender => ?_
  · have hcaller : D.vault ≠ w.owner := fun heq => D.vault_code (heq ▸ hexternal)
    have hpay : Untouched D w (Deployment.pay w m.sender m.receiver m.value.toNat) :=
      ⟨rfl, rfl, rfl, List.prefix_rfl, le_rfl⟩
    cases heffect with
    | viewed => exact hpay
    | depositedNative userId => exact hpay.trans untouched_depositedLog
    | depositedToken userId token amount data w₁ _ _ _ hcall =>
      exact hpay.trans ((hcall hexternal hcaller).trans untouched_depositedLog)
    | sweptNative recipient amount data w₁ _ howner _ => exact absurd howner hsender
    | sweptToken token recipient amount data w₁ _ howner _ => exact absurd howner hsender
    | ownershipTransferred newOwner _ howner => exact absurd howner hsender
  · refine usdtCode_ensures.mono fun output w' heffect _ _ => ?_
    obtain ⟨-, howner, hunsolicited, more, hlogs, hmore⟩ := UsdtEffect.frame heffect.2
    exact .of_address hlogs (fun log hlog => (hmore log hlog).trans_ne D.distinct.symm) howner
      hunsolicited.ge
  · refine moves_preserve (I := Untouched D w) hmoves ⟨rfl, rfl, rfl, List.prefix_rfl, le_rfl⟩
      (fun w₁ w₂ h₁ hchanges => ?_) fun m' r w₁ w₂ hcode hsender' h₁ hspec => ?_
    · exact h₁.trans (untouched_changes hchanges hvault)
    · have hcaller : m'.sender ≠ w₁.owner := by
        rw [hsender', h₁.owner]
        exact fun heq => hcode (heq ▸ hexternal)
      exact h₁.trans (hspec (h₁.owner ▸ hexternal) hcaller)

theorem untouched_leads (hexternal : D.external w.owner)
    (h : Leads D.machine (fun m => D.Transaction m ∧ m.sender ≠ w.owner) w w') :
    Untouched D w w' := by
  refine guarantees_leavesVault.leads (I := Untouched D w) h (.refl w) (fun s s' hs hdrift => ?_)
    fun m s r s' houtside hs hspec => ?_
  · obtain ⟨recipient, amount, rfl⟩ := hdrift
    exact hs.trans ⟨rfl, rfl, rfl, List.prefix_rfl, unsolicited_le recipient amount⟩
  · exact hs.trans (hspec (hs.owner ▸ hexternal) (hs.owner ▸ houtside.2))

theorem depositedAmount_mono (h : deposits D.vault w.logs <+: deposits D.vault w'.logs) :
    depositedAmount D.vault token w.logs ≤ depositedAmount D.vault token w'.logs := by
  obtain ⟨more, hmore⟩ := h
  rw [depositedAmount, depositedAmount, ← hmore, List.map_append, List.sum_append]
  exact Nat.le_add_right _ _

/-- As long as the owner, an account without code, sends no transaction: the owner stays, nothing
is swept, and neither the ether nor the tokens of the vault become less. -/
theorem vault_authorization {w₀ : World} (h₀ : D.Constructed w₀) (hreaches : D.Reaches w₀ w)
    (hexternal : D.external w.owner)
    (h : Leads D.machine (fun m => D.Transaction m ∧ m.sender ≠ w.owner) w w') :
    w'.owner = w.owner ∧ nativeSweeps D.vault w'.logs = nativeSweeps D.vault w.logs ∧
      tokenSweeps D.vault w'.logs = tokenSweeps D.vault w.logs ∧
        w.ether D.vault ≤ w'.ether D.vault ∧
          w.usdt.balanceOf D.vault ≤ w'.usdt.balanceOf D.vault := by
  have huntouched := untouched_leads hexternal h
  have hether : etherSurplus D w' = etherSurplus D w :=
    etherSurplus_reaches (h.mono fun _ houtside => houtside.1)
  have hnone : AllowsNone D w :=
    (backed_leads (fun _ => id) hreaches (allowsNone_constructed h₀)).allowsNone
  have husdt : usdtSurplus D w ≤ usdtSurplus D w' :=
    (backed_leads (fun _ houtside => houtside.1) h hnone).surplus
  have hnative : sweptEther D.vault w'.logs = sweptEther D.vault w.logs := by
    rw [sweptEther, huntouched.nativeSweeps, sweptEther]
  have htoken : sweptAmount D.vault D.usdt w'.logs = sweptAmount D.vault D.usdt w.logs := by
    rw [sweptAmount, huntouched.tokenSweeps, sweptAmount]
  have hdeposited (token : Address) : depositedAmount D.vault token w.logs ≤
      depositedAmount D.vault token w'.logs := depositedAmount_mono huntouched.deposits
  have hdepositedEther := hdeposited 0
  have hdepositedUsdt := hdeposited D.usdt
  have hunsolicited := huntouched.unsolicited
  unfold etherSurplus at hether
  unfold usdtSurplus at husdt
  refine ⟨huntouched.owner, huntouched.nativeSweeps, huntouched.tokenSweeps, ?_, ?_⟩
  · omega
  · rw [BitVec.le_def]
    omega

theorem vault_authorization_relayed : relayed.ether devDeployment.vault = 60 ∧
    relayed.owner = devWorld.owner ∧
      nativeSweeps devDeployment.vault relayed.logs =
          nativeSweeps devDeployment.vault devWorld.logs ∧
        tokenSweeps devDeployment.vault relayed.logs =
            tokenSweeps devDeployment.vault devWorld.logs ∧
          devWorld.ether devDeployment.vault ≤ relayed.ether devDeployment.vault ∧
            devWorld.usdt.balanceOf devDeployment.vault ≤
              relayed.usdt.balanceOf devDeployment.vault :=
  ⟨relayed_ether, vault_authorization constructed_devWorld .refl (Or.inl rfl)
    (leads_relayed.mono fun _ hsender => ⟨Or.inr hsender, by rw [hsender]; decide⟩)⟩

end EtherTrade.DepositVaultBacking
