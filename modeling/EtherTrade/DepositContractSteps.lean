import EtherTrade.DepositContracts

/-!
# What calls of the two contracts do

Each successful call of the vault or the token as one of few effects, with the message
that it has sent in between, and what messages and other accounts change by themselves.
-/

namespace EtherTrade.DepositContractSteps

open Keccak256 ContractEvents ContractMethods ReentrantCalls DepositContracts
open DepositEventLaws (transferFailed)

variable {D : Deployment} {m : Message} {w w' : World} {amount : ℕ}
  {account source recipient : Address} {Spec : Message → World → Except Bytes Bytes → World → Prop}

/-- The world after a log. -/
def withLog (w : World) (log : Log) : World := { w with logs := w.logs ++ [log] }

/-- What a successful call of the vault has done. -/
inductive VaultEffect (vault : Address) (Spec : Message → World → Except Bytes Bytes → World → Prop)
    (m : Message) (w : World) : World → Prop
  | viewed (hvalue : m.value = 0) : VaultEffect vault Spec m w w
  | depositedNative (userId : BitVec 128) : VaultEffect vault Spec m w
      (withLog w (depositedLog vault userId 0 m.value m.sender))
  | depositedToken (userId : BitVec 128) (token : Address) (amount : Word) (data : Bytes)
      (w' : World) (hvalue : m.value = 0) (htoken : token ≠ 0) (hamount : amount ≠ 0)
      (hcall : Spec ⟨vault, token, 0, transferFromData m.sender vault amount⟩ w (.ok data) w') :
      VaultEffect vault Spec m w
        (withLog w' (depositedLog vault userId token amount m.sender))
  | sweptNative (recipient : Address) (amount : Word) (data : Bytes) (w' : World)
      (hvalue : m.value = 0) (howner : m.sender = w.owner)
      (hcall : Spec ⟨vault, recipient, amount, []⟩ w (.ok data) w') :
      VaultEffect vault Spec m w (withLog w' (nativeSweepLog vault recipient amount))
  | sweptToken (token recipient : Address) (amount : Word) (data : Bytes) (w' : World)
      (hvalue : m.value = 0) (howner : m.sender = w.owner)
      (hcall : Spec ⟨vault, token, 0, transferData recipient amount⟩ w (.ok data) w') :
      VaultEffect vault Spec m w (withLog w' (tokenSweepLog vault token recipient amount))
  | ownershipTransferred (newOwner : Address) (hvalue : m.value = 0) (howner : m.sender = w.owner) :
      VaultEffect vault Spec m w
        (withLog { w with owner := newOwner } (ownershipTransferredLog vault w.owner newOwner))

/-- What a successful call of the token has done. -/
inductive UsdtEffect (usdt : Address) (m : Message) (w : World) : World → Prop
  | viewed : UsdtEffect usdt m w w
  | transfer (recipient : Address) (amount : Word) (t : MockUsdt) (logs : List Log) (output : Bytes)
      (h : w.usdt.transfer usdt m.sender recipient amount = .ok (t, logs, output)) :
      UsdtEffect usdt m w { w with usdt := t, logs := w.logs ++ logs }
  | approve (spender : Address) (amount : Word) (t : MockUsdt) (logs : List Log) (output : Bytes)
      (h : w.usdt.approve usdt m.sender spender amount = .ok (t, logs, output)) :
      UsdtEffect usdt m w { w with usdt := t, logs := w.logs ++ logs }
  | transferFrom (sender recipient : Address) (amount : Word) (t : MockUsdt) (logs : List Log)
      (output : Bytes)
      (h : w.usdt.transferFrom usdt m.sender sender recipient amount = .ok (t, logs, output)) :
      UsdtEffect usdt m w { w with usdt := t, logs := w.logs ++ logs }
  | mint (recipient : Address) (amount : Word) (t : MockUsdt) (logs : List Log) (output : Bytes)
      (h : w.usdt.mint usdt recipient amount = .ok (t, logs, output)) :
      UsdtEffect usdt m w { w with usdt := t, logs := w.logs ++ logs }

/-! ### The vault -/

theorem requireTransferred_ensures {r : Except Bytes Bytes} {Q : PUnit → World → Prop}
    (h : ∀ data, r = .ok data → Q ⟨⟩ w) : (requireTransferred r).Ensures Spec Q w := by
  unfold requireTransferred
  split
  · trivial
  · trivial
  · next hfailed =>
    cases r with
    | ok data => exact h data rfl
    | error data => simp [callResult, transferFailed] at hfailed

theorem checkOwner_ensures {Q : PUnit → World → Prop} (h : m.sender = w.owner → Q ⟨⟩ w) :
    (checkOwner m).Ensures Spec Q w := by
  rw [checkOwner, Program.ensures_bind, Program.ensures_read]
  split
  · trivial
  · next howner => exact h (not_not.mp howner)

theorem noOutput_ensures {method : Contract PUnit} {Q : Bytes → World → Prop}
    (h : method.Ensures Spec (fun _ w' => ∀ output, Q output w') w) :
    (noOutput method).Ensures Spec Q w := by
  rw [noOutput, Program.ensures_bind]
  exact h.mono fun _ _ hQ => hQ []

theorem depositToken_ensures {vault token : Address} {userId : BitVec 128} {amount : Word}
    (hvalue : m.value = 0) : (depositToken vault m userId token amount).Ensures Spec
      (fun _ w' => VaultEffect vault Spec m w w') w := by
  unfold depositToken
  split
  · trivial
  · next htoken =>
    split
    · trivial
    · next hamount =>
      rw [Program.ensures_bind, Program.ensures_send]
      intro r w' hcall
      rw [Program.ensures_bind]
      refine requireTransferred_ensures fun data hr => ?_
      subst hr
      exact .depositedToken userId token amount data w' hvalue htoken hamount hcall

theorem sweepNative_ensures {vault recipient : Address} {amount : Word} (hvalue : m.value = 0) :
    (sweepNative vault m recipient amount).Ensures Spec
      (fun _ w' => VaultEffect vault Spec m w w') w := by
  rw [sweepNative, Program.ensures_bind]
  refine checkOwner_ensures fun howner => ?_
  split
  · trivial
  · rw [Program.ensures_bind, Program.ensures_send]
    intro r w' hcall
    cases r with
    | error error => trivial
    | ok data => exact .sweptNative recipient amount data w' hvalue howner hcall

theorem sweepToken_ensures {vault token recipient : Address} {amount : Word}
    (hvalue : m.value = 0) :
    (sweepToken vault m token recipient amount).Ensures Spec
      (fun _ w' => VaultEffect vault Spec m w w') w := by
  rw [sweepToken, Program.ensures_bind]
  refine checkOwner_ensures fun howner => ?_
  split
  · trivial
  · split
    · trivial
    · rw [Program.ensures_bind, Program.ensures_send]
      intro r w' hcall
      rw [Program.ensures_bind]
      refine requireTransferred_ensures fun data hr => ?_
      subst hr
      exact .sweptToken token recipient amount data w' hvalue howner hcall

theorem transferOwnership_ensures {vault newOwner : Address} (hvalue : m.value = 0) :
    (transferOwnership vault m newOwner).Ensures Spec
      (fun _ w' => VaultEffect vault Spec m w w') w := by
  rw [transferOwnership, Program.ensures_bind]
  refine checkOwner_ensures fun howner => ?_
  split
  · trivial
  · exact .ownershipTransferred newOwner hvalue howner

/-- A successful call of the vault has one of the effects. -/
theorem vaultCode_ensures {vault : Address} : (vaultCode vault m).Ensures Spec
    (fun _ w' => VaultEffect vault Spec m w w') w := by
  refine dispatch_ensures (fun _ => trivial) fun f hf args hvalue => ?_
  simp only [vaultMethods, List.mem_cons, List.not_mem_nil, or_false] at hf
  rcases hf with rfl | rfl | rfl | rfl | rfl | rfl
  · exact .viewed (hvalue rfl)
  · refine noOutput_ensures ?_
    unfold depositNative
    split
    · trivial
    · exact fun _ => .depositedNative _
  · exact noOutput_ensures ((depositToken_ensures (hvalue rfl)).mono fun _ _ h _ => h)
  · exact noOutput_ensures ((sweepNative_ensures (hvalue rfl)).mono fun _ _ h _ => h)
  · exact noOutput_ensures ((sweepToken_ensures (hvalue rfl)).mono fun _ _ h _ => h)
  · exact noOutput_ensures ((transferOwnership_ensures (hvalue rfl)).mono fun _ _ h _ => h)

/-! ### The token -/

theorem onUsdt_ensures {method : MockUsdt → UsdtResult} {Q : Bytes → World → Prop}
    (h : ∀ t logs output, method w.usdt = .ok (t, logs, output) →
      Q output { w with usdt := t, logs := w.logs ++ logs }) :
    (onUsdt method).Ensures Spec Q w := by
  rw [onUsdt, Program.ensures_bind, Program.ensures_read]
  split
  · trivial
  · next t logs output hmethod => exact h t logs output hmethod

theorem onUsdt_silent {method : MockUsdt → UsdtResult} : (onUsdt method).Silent := by
  refine Program.Silent.bind (fun _ => trivial) fun w => ?_
  split
  · trivial
  · exact fun _ => trivial

/-- The token sends no messages. -/
theorem usdtCode_silent {usdt : Address} : (usdtCode usdt m).Silent := by
  refine dispatch_silent trivial fun f hf args => ?_
  simp only [usdtMethods, List.mem_cons, List.not_mem_nil, or_false] at hf
  rcases hf with rfl | rfl | rfl | rfl | rfl | rfl | rfl | rfl
  · obtain ⟨recipient, amount, -⟩ := args
    dsimp only
    exact onUsdt_silent
  · obtain ⟨spender, amount, -⟩ := args
    dsimp only
    exact onUsdt_silent
  · obtain ⟨sender, recipient, amount, -⟩ := args
    dsimp only
    exact onUsdt_silent
  · obtain ⟨recipient, amount, -⟩ := args
    dsimp only
    exact onUsdt_silent
  all_goals exact fun _ => trivial

/-- A successful call of the token has one of the effects, and brings no ether. -/
theorem usdtCode_ensures {usdt : Address} : (usdtCode usdt m).Ensures Spec
    (fun _ w' => m.value = 0 ∧ UsdtEffect usdt m w w') w := by
  refine dispatch_ensures (fun _ => trivial) fun f hf args hvalue => ?_
  simp only [usdtMethods, List.mem_cons, List.not_mem_nil, or_false] at hf
  rcases hf with rfl | rfl | rfl | rfl | rfl | rfl | rfl | rfl
  · obtain ⟨recipient, amount, -⟩ := args
    dsimp only
    refine onUsdt_ensures fun t logs output h => ⟨hvalue rfl, ?_⟩
    exact .transfer recipient amount t logs output h
  · obtain ⟨spender, amount, -⟩ := args
    dsimp only
    refine onUsdt_ensures fun t logs output h => ⟨hvalue rfl, ?_⟩
    exact .approve spender amount t logs output h
  · obtain ⟨sender, recipient, amount, -⟩ := args
    dsimp only
    refine onUsdt_ensures fun t logs output h => ⟨hvalue rfl, ?_⟩
    exact .transferFrom sender recipient amount t logs output h
  · obtain ⟨recipient, amount, -⟩ := args
    dsimp only
    refine onUsdt_ensures fun t logs output h => ⟨hvalue rfl, ?_⟩
    exact .mint recipient amount t logs output h
  all_goals exact ⟨hvalue rfl, .viewed⟩

/-! ### Messages -/

theorem enter_eq_some : D.machine.enter m w = some w' ↔
    m.value.toNat ≤ w.ether m.sender ∧
      w' = Deployment.pay w m.sender m.receiver m.value.toNat := by
  simp only [Deployment.machine]
  split
  · next hle => simp [hle, eq_comm]
  · next hnot => simp [hnot]

theorem code_eq_none (h : D.machine.code m = none) :
    m.receiver ≠ D.vault ∧ m.receiver ≠ D.usdt := by
  simp only [Deployment.machine] at h
  split at h
  · cases h
  · next hvault =>
    split at h
    · cases h
    · next husdt => exact ⟨hvault, husdt⟩

theorem code_eq_some {p : Contract Bytes} (h : D.machine.code m = some p) :
    m.receiver = D.vault ∧ p = vaultCode D.vault m ∨
      m.receiver = D.usdt ∧ p = usdtCode D.usdt m := by
  simp only [Deployment.machine] at h
  split at h
  · next hvault => exact Or.inl ⟨hvault, (Option.some.inj h).symm⟩
  · split at h
    · next husdt => exact Or.inr ⟨husdt, (Option.some.inj h).symm⟩
    · cases h

/-- What a guarantee of all messages takes, by the effects of the two contracts. -/
theorem guarantees_of_effects (hfailed : ∀ m w error, Spec m w (.error error) w)
    (hvault : ∀ m w w' output, m.receiver = D.vault → m.value.toNat ≤ w.ether m.sender →
      VaultEffect D.vault Spec m (Deployment.pay w m.sender m.receiver m.value.toNat) w' →
        Spec m w (.ok output) w')
    (husdt : ∀ m w, m.receiver = D.usdt → m.value.toNat ≤ w.ether m.sender →
      (usdtCode D.usdt m).Ensures Spec (fun output w' => Spec m w (.ok output) w')
        (Deployment.pay w m.sender m.receiver m.value.toNat))
    (hother : ∀ m w w' output, m.receiver ≠ D.vault → m.receiver ≠ D.usdt →
      m.value.toNat ≤ w.ether m.sender →
      Relation.ReflTransGen (Moves D.machine Spec m)
        (Deployment.pay w m.sender m.receiver m.value.toNat) w' → Spec m w (.ok output) w') :
    Guarantees D.machine Spec where
  failed := hfailed
  known m p w w₁ henter hcode := by
    obtain ⟨hle, rfl⟩ := enter_eq_some.mp henter
    rcases code_eq_some hcode with ⟨hreceiver, rfl⟩ | ⟨hreceiver, rfl⟩
    · exact vaultCode_ensures.mono fun output w' heffect =>
        hvault m w w' output hreceiver hle heffect
    · exact husdt m w hreceiver hle
  other m w w₁ w₂ output henter hcode hmoves := by
    obtain ⟨hle, rfl⟩ := enter_eq_some.mp henter
    obtain ⟨hvault, husdt⟩ := code_eq_none hcode
    exact hother m w w₂ output hvault husdt hle hmoves

/-- What the moves of other code preserve, one by one. -/
theorem moves_preserve {I : World → Prop}
    (hmoves : Relation.ReflTransGen (Moves D.machine Spec m) w w') (h : I w)
    (hchange : ∀ w w', I w → D.Changes m.receiver w w' → I w')
    (hsend : ∀ m' r w w', ¬D.external m.receiver → m'.sender = m.receiver → I w →
      Spec m' w r w' → I w') : I w' := by
  induction hmoves with
  | refl => exact h
  | tail _ hlast ih =>
    rcases hlast with ⟨hcode, hchanges⟩ | ⟨m', r, ⟨hcode, hsender⟩, hspec⟩
    · exact hchange _ _ ih hchanges
    · exact hsend m' r _ _ hcode hsender ih hspec

end EtherTrade.DepositContractSteps
