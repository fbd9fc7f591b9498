import EtherTrade.DepositContractSteps
import Mathlib.Algebra.BigOperators.Group.Finset.Piecewise
import Mathlib.Algebra.Order.BigOperators.Group.Finset
import Mathlib.Data.BitVec
import Mathlib.Data.Fintype.EquivFin

/-!
# Balances of the mock token

What each method of the token moves, and from it, over all transactions of any accounts:
the balances add up to the supply, so that crediting one never leaves the words, and the
logs of transfers tell every balance.
-/

namespace EtherTrade.MockUsdtLaws

open Keccak256 ContractEvents ContractMethods ReentrantCalls DepositContracts
open DepositContractSteps

variable {D : Deployment} {usdt msgSender sender recipient spender account : Address}
  {t t' : MockUsdt} {amount a b c : Word} {logs : List Log} {output : Bytes} {w w' : World}
  {m : Message} {r : Except Bytes Bytes}

noncomputable instance : Fintype Address :=
  have : Finite Address := Finite.of_injective BitVec.toFin BitVec.toFin_injective
  Fintype.ofFinite _

/-! ### Checked arithmetic -/

theorem checkedAdd_eq_ok : checkedAdd a b = .ok c ↔ c.toNat = a.toNat + b.toNat := by
  unfold checkedAdd
  have hc := c.isLt
  split
  · next hover =>
    constructor
    · intro h
      cases h
    · intro h
      omega
  · next hfits =>
    rw [Except.ok.injEq, ← BitVec.toNat_inj, BitVec.toNat_add, Nat.mod_eq_of_lt (by omega), eq_comm]

theorem checkedSub_eq_ok : checkedSub a b = .ok c ↔ c.toNat + b.toNat = a.toNat := by
  unfold checkedSub
  have ha := a.isLt
  have hb := b.isLt
  have hc := c.isLt
  split
  · next hlt =>
    rw [BitVec.lt_def] at hlt
    constructor
    · intro h
      cases h
    · intro h
      omega
  · next hle =>
    rw [BitVec.lt_def] at hle
    have hsub : (a - b).toNat = a.toNat - b.toNat :=
      BitVec.toNat_sub_of_le (BitVec.le_def.mpr (not_lt.mp hle))
    rw [Except.ok.injEq, ← BitVec.toNat_inj, hsub]
    omega

/-! ### Moving a balance -/

/-- The sum of all balances. -/
noncomputable def total (t : MockUsdt) : ℕ := ∑ a : Address, (t.balanceOf a).toNat

/-- An amount has moved from one account to another, perhaps the same. -/
structure Moved (source recipient : Address) (amount : ℕ) (t t' : MockUsdt) : Prop where
  balance : ∀ a, (t'.balanceOf a).toNat + (if a = source then amount else 0) =
    (t.balanceOf a).toNat + (if a = recipient then amount else 0)
  totalSupply : t'.totalSupply = t.totalSupply
  allowance : t'.allowance = t.allowance

theorem debit_eq_ok (h : t.debit account amount = .ok t') :
    (∀ a, (t'.balanceOf a).toNat + (if a = account then amount.toNat else 0) =
      (t.balanceOf a).toNat) ∧ t'.totalSupply = t.totalSupply ∧ t'.allowance = t.allowance := by
  simp only [MockUsdt.debit, bind, Except.bind] at h
  split at h
  · cases h
  · next balance hbalance =>
    cases h
    refine ⟨fun a => ?_, rfl, rfl⟩
    by_cases ha : a = account
    · subst ha
      simp only [if_true, Function.update_self]
      exact checkedSub_eq_ok.mp hbalance
    · simp only [if_neg ha, Function.update_of_ne ha, add_zero]

theorem credit_eq_ok (h : t.credit account amount = .ok t') :
    (∀ a, (t'.balanceOf a).toNat =
      (t.balanceOf a).toNat + (if a = account then amount.toNat else 0)) ∧
        t'.totalSupply = t.totalSupply ∧ t'.allowance = t.allowance := by
  simp only [MockUsdt.credit, bind, Except.bind] at h
  split at h
  · cases h
  · next balance hbalance =>
    cases h
    refine ⟨fun a => ?_, rfl, rfl⟩
    by_cases ha : a = account
    · subst ha
      simp only [if_true, Function.update_self]
      exact checkedAdd_eq_ok.mp hbalance
    · simp only [if_neg ha, Function.update_of_ne ha, add_zero]

theorem moved_of_eq_ok {u : MockUsdt} (hdebit : t.debit sender amount = .ok u)
    (hcredit : u.credit recipient amount = .ok t') :
    Moved sender recipient amount.toNat t t' := by
  obtain ⟨hdebited, hsupply, hallowance⟩ := debit_eq_ok hdebit
  obtain ⟨hcredited, hsupply', hallowance'⟩ := credit_eq_ok hcredit
  refine ⟨fun a => ?_, hsupply'.trans hsupply, hallowance'.trans hallowance⟩
  rw [hcredited a, ← hdebited a]
  ring

theorem total_debit (h : t.debit account amount = .ok t') : total t' + amount.toNat = total t := by
  have hsum : ∑ a, ((t'.balanceOf a).toNat + (if a = account then amount.toNat else 0)) = total t :=
    Finset.sum_congr rfl fun a _ => (debit_eq_ok h).1 a
  rwa [Finset.sum_add_distrib, Finset.sum_ite_eq', if_pos (Finset.mem_univ _)] at hsum

theorem total_credit (h : t.credit account amount = .ok t') :
    total t' = total t + amount.toNat := by
  have hsum : total t' =
      ∑ a, ((t.balanceOf a).toNat + (if a = account then amount.toNat else 0)) :=
    Finset.sum_congr rfl fun a _ => (credit_eq_ok h).1 a
  rwa [Finset.sum_add_distrib, Finset.sum_ite_eq', if_pos (Finset.mem_univ _)] at hsum

theorem balance_le_total : (t.balanceOf account).toNat ≤ total t :=
  Finset.single_le_sum (f := fun a => (t.balanceOf a).toNat) (fun _ _ => Nat.zero_le _)
    (Finset.mem_univ account)

theorem exists_debit (h : ¬t.balanceOf account < amount) : ∃ u, t.debit account amount = .ok u := by
  rw [BitVec.lt_def, not_lt] at h
  have hsub : checkedSub (t.balanceOf account) amount = .ok (t.balanceOf account - amount) := by
    rw [checkedSub_eq_ok, BitVec.toNat_sub_of_le (BitVec.le_def.mpr h), Nat.sub_add_cancel h]
  exact ⟨_, by simp only [MockUsdt.debit, hsub, bind, Except.bind]; rfl⟩

/-- A credit fits as long as it fits the sum of all balances. -/
theorem exists_credit (h : total t + amount.toNat < 2 ^ 256) :
    ∃ u, t.credit account amount = .ok u := by
  have hle : (t.balanceOf account).toNat ≤ total t := balance_le_total
  have hadd : checkedAdd (t.balanceOf account) amount = .ok (t.balanceOf account + amount) := by
    rw [checkedAdd_eq_ok, BitVec.toNat_add, Nat.mod_eq_of_lt (by omega)]
  exact ⟨_, by simp only [MockUsdt.credit, hadd, bind, Except.bind]; rfl⟩

/-! ### What the methods do -/

theorem transfer_eq_ok (h : t.transfer usdt msgSender recipient amount = .ok (t', logs, output)) :
    recipient ≠ 0 ∧ Moved msgSender recipient amount.toNat t t' ∧ total t' = total t ∧
      logs = [transferLog usdt msgSender recipient amount] := by
  simp only [MockUsdt.transfer, bind, Except.bind, pure, Except.pure, throw, throwThe,
    MonadExceptOf.throw] at h
  split at h
  · cases h
  · next hrecipient =>
    split at h
    · cases h
    · split at h
      · cases h
      · next u hdebit =>
        split at h
        · cases h
        · next v hcredit =>
          cases h
          refine ⟨hrecipient, moved_of_eq_ok hdebit hcredit, ?_, rfl⟩
          rw [total_credit hcredit, total_debit hdebit]

theorem approve_eq_ok (h : t.approve usdt msgSender spender amount = .ok (t', logs, output)) :
    t' = t.setAllowance msgSender spender amount ∧
      logs = [approvalLog usdt msgSender spender amount] := by
  simp only [MockUsdt.approve, bind, Except.bind, pure, Except.pure, throw, throwThe,
    MonadExceptOf.throw] at h
  split at h
  · cases h
  · cases h
    exact ⟨rfl, rfl⟩

/-- What is moved for an owner was allowed to the caller, and is taken from its allowance. -/
theorem transferFrom_eq_ok
    (h : t.transferFrom usdt msgSender sender recipient amount = .ok (t', logs, output)) :
    recipient ≠ 0 ∧ ¬t.allowance sender msgSender < amount ∧
      Moved sender recipient amount.toNat
        (if t.allowance sender msgSender = BitVec.allOnes 256 then t
          else t.setAllowance sender msgSender (t.allowance sender msgSender - amount)) t' ∧
        total t' = total t ∧
          logs = [transferLog usdt sender recipient amount] := by
  simp only [MockUsdt.transferFrom, bind, Except.bind, pure, Except.pure, throw, throwThe,
    MonadExceptOf.throw] at h
  split at h
  · cases h
  · next hrecipient =>
    split at h
    · cases h
    · split at h
      · cases h
      · next hallowed =>
        split at h
        · cases h
        · next u hdebit =>
          split at h
          · cases h
          · next v hcredit =>
            cases h
            refine ⟨hrecipient, hallowed, moved_of_eq_ok hdebit hcredit, ?_, rfl⟩
            rw [total_credit hcredit, total_debit hdebit]
            split <;> rfl

theorem mintTo_eq_ok (h : t.mintTo usdt recipient amount = .ok (t', logs, output)) :
    t'.totalSupply.toNat = t.totalSupply.toNat + amount.toNat ∧
      (∀ a, (t'.balanceOf a).toNat =
        (t.balanceOf a).toNat + (if a = recipient then amount.toNat else 0)) ∧
      t'.allowance = t.allowance ∧ total t' = total t + amount.toNat ∧
        logs = [transferLog usdt 0 recipient amount] := by
  simp only [MockUsdt.mintTo, bind, Except.bind, pure, Except.pure] at h
  split at h
  · cases h
  · next supply hsupply =>
    split at h
    · cases h
    · next v hcredit =>
      cases h
      obtain ⟨hbalance, hsupply', hallowance⟩ := credit_eq_ok hcredit
      have htotal : total t' = total { t with totalSupply := supply } + amount.toNat :=
        total_credit hcredit
      refine ⟨?_, hbalance, hallowance, htotal, rfl⟩
      rw [hsupply']
      exact checkedAdd_eq_ok.mp hsupply

theorem mint_eq_ok (h : t.mint usdt recipient amount = .ok (t', logs, output)) :
    recipient ≠ 0 ∧ t.mintTo usdt recipient amount = .ok (t', logs, output) := by
  simp only [MockUsdt.mint, bind, Except.bind, throw, throwThe, MonadExceptOf.throw] at h
  split at h
  · cases h
  · next hrecipient => exact ⟨hrecipient, h⟩

/-! ### Balances and logs -/

/-- What the transfers among some logs bring to an account. -/
def received (usdt account : Address) (logs : List Log) : ℕ :=
  ((transfers usdt logs).map fun (_, recipient, value) =>
    if account = recipient then value.toNat else 0).sum

/-- What they take from it; a mint takes from the zero address. -/
def sent (usdt account : Address) (logs : List Log) : ℕ :=
  ((transfers usdt logs).map fun (sender, _, value) =>
    if account = sender then value.toNat else 0).sum

theorem received_transferLog : received usdt account
      (logs ++ [transferLog usdt sender recipient amount]) =
    received usdt account logs + if account = recipient then amount.toNat else 0 := by
  rw [received, transfers_transferLog, List.map_append, List.sum_append, List.map_singleton,
    List.sum_singleton, received]

theorem sent_transferLog : sent usdt account
      (logs ++ [transferLog usdt sender recipient amount]) =
    sent usdt account logs + if account = sender then amount.toNat else 0 := by
  rw [sent, transfers_transferLog, List.map_append, List.sum_append, List.map_singleton,
    List.sum_singleton, sent]

/-- The balances add up to the supply, and the logs tell every balance. -/
structure Supplied (usdt : Address) (t : MockUsdt) (logs : List Log) : Prop where
  total : total t = t.totalSupply.toNat
  told : ∀ account ≠ 0, (t.balanceOf account).toNat + sent usdt account logs =
    received usdt account logs

/-- Other logs tell nothing of the token. -/
theorem Supplied.other (h : Supplied usdt t logs) {more : List Log}
    (hmore : transferEvent.observed usdt (logs ++ more) = transferEvent.observed usdt logs) :
    Supplied usdt t (logs ++ more) := by
  refine ⟨h.total, fun account haccount => ?_⟩
  rw [sent, received, transfers, hmore]
  exact h.told account haccount

theorem Supplied.moved (h : Supplied usdt t logs)
    (hmoved : Moved sender recipient amount.toNat t t')
    (htotal : MockUsdtLaws.total t' = MockUsdtLaws.total t) :
    Supplied usdt t' (logs ++ [transferLog usdt sender recipient amount]) := by
  refine ⟨?_, fun account haccount => ?_⟩
  · rw [htotal, hmoved.totalSupply]
    exact h.total
  · have hold := h.told account haccount
    have hnew := hmoved.balance account
    rw [received_transferLog, sent_transferLog]
    omega

theorem Supplied.minted (h : Supplied usdt t logs) {more : List Log}
    (hmint : t.mintTo usdt recipient amount = .ok (t', more, output)) :
    Supplied usdt t' (logs ++ more) := by
  obtain ⟨hsupply, hbalance, -, htotal, rfl⟩ := mintTo_eq_ok hmint
  refine ⟨?_, fun account haccount => ?_⟩
  · rw [htotal, hsupply, h.total]
  · have hold := h.told account haccount
    have hnew := hbalance account
    rw [received_transferLog, sent_transferLog, if_neg haccount]
    omega

theorem topic0_transfer : transferEvent.topic0 =
    0xddf252ad1be2c89b69c2b068fc378daa952ba7f163c4a11628f55a4df523b3ef := by
  decide +kernel

theorem topic0_approval : approvalEvent.topic0 =
    0x8c5be1e5ebec7d5bd14f71427d1e84f3dd0314c0f7b2291e5b200ac8c7c3b925 := by
  decide +kernel

theorem topic0_transfer_ne_approval : approvalEvent.topic0 ≠ transferEvent.topic0 := by
  rw [topic0_approval, topic0_transfer]
  decide

/-- What the methods of the token preserve. -/
theorem UsdtEffect.supplied (h : UsdtEffect usdt m w w') (hw : Supplied usdt w.usdt w.logs) :
    Supplied usdt w'.usdt w'.logs := by
  cases h with
  | viewed => exact hw
  | transfer recipient amount t logs output h =>
    obtain ⟨-, hmoved, htotal, rfl⟩ := transfer_eq_ok h
    exact hw.moved hmoved htotal
  | approve spender amount t logs output h =>
    obtain ⟨rfl, rfl⟩ := approve_eq_ok h
    have hsame : Supplied usdt (w.usdt.setAllowance m.sender spender amount) w.logs :=
      ⟨hw.total, hw.told⟩
    exact hsame.other (Event.observed_emit_of_ne topic0_transfer_ne_approval)
  | transferFrom sender recipient amount t logs output h =>
    obtain ⟨-, -, hmoved, htotal, rfl⟩ := transferFrom_eq_ok h
    have hsame : Supplied usdt (if w.usdt.allowance sender m.sender = BitVec.allOnes 256
        then w.usdt
        else w.usdt.setAllowance sender m.sender (w.usdt.allowance sender m.sender - amount))
          w.logs := by
      split
      · exact hw
      · exact ⟨hw.total, hw.told⟩
    refine hsame.moved hmoved (htotal.trans ?_)
    split <;> rfl
  | mint recipient amount t logs output h =>
    obtain ⟨-, h⟩ := mint_eq_ok h
    exact hw.minted h

/-! ### All calls -/

/-- The token's books are in order after a message when they were before. -/
def KeepsBooks (D : Deployment) (_ : Message) (w : World) (_ : Except Bytes Bytes) (w' : World) :
    Prop := Supplied D.usdt w.usdt w.logs → Supplied D.usdt w'.usdt w'.logs

theorem supplied_withLog {log : Log} (hlog : log.address ≠ D.usdt)
    (hw : Supplied D.usdt w.usdt w.logs) :
    Supplied D.usdt (withLog w log).usdt (withLog w log).logs :=
  hw.other (Event.observed_of_address fun l hl => by rwa [List.mem_singleton.mp hl])

theorem guarantees_keepsBooks : Guarantees D.machine (KeepsBooks D) := by
  refine guarantees_of_effects (fun _ _ _ => id) (fun m w w' output _ _ heffect hw => ?_)
    (fun m w _ _ => ?_) fun m w w' output _ husdt _ hmoves hw => ?_
  · have hvault : D.vault ≠ D.usdt := D.distinct
    cases heffect with
    | viewed => exact hw
    | depositedNative => exact supplied_withLog hvault hw
    | depositedToken _ _ _ _ _ _ _ _ hcall => exact supplied_withLog hvault (hcall hw)
    | sweptNative _ _ _ _ _ _ hcall => exact supplied_withLog hvault (hcall hw)
    | sweptToken _ _ _ _ _ _ _ hcall => exact supplied_withLog hvault (hcall hw)
    | ownershipTransferred => exact supplied_withLog hvault hw
  · exact usdtCode_ensures.mono fun _ _ heffect hw => UsdtEffect.supplied heffect.2 hw
  · refine moves_preserve hmoves hw (fun w w' hw hchanges => ?_) fun m' r w w' _ _ hw hspec =>
      hspec hw
    cases hchanges with
    | logged log haddress => exact supplied_withLog (haddress ▸ husdt) hw
    | destroyed => exact hw

theorem supplied_constructed (h : D.Constructed w) : Supplied D.usdt w.usdt w.logs := by
  obtain ⟨deployer, logs, output, hdeployer, hminted, hlogs⟩ := h.usdt
  have hempty : Supplied D.usdt (MockUsdt.mk 0 (fun _ => 0) fun _ _ => 0) [] :=
    ⟨Finset.sum_const_zero, fun _ _ => rfl⟩
  rw [hlogs]
  refine (hempty.minted hminted).other (Event.observed_of_address fun log hlog => ?_)
  rw [List.mem_singleton.mp hlog]
  exact D.distinct

theorem Supplied.of_reaches (hw : Supplied D.usdt w.usdt w.logs) (h : D.Reaches w w') :
    Supplied D.usdt w'.usdt w'.logs := by
  refine guarantees_keepsBooks.leads h hw (fun s s' hs hdrift => ?_) fun _ _ _ _ _ hs hspec =>
    hspec hs
  obtain ⟨recipient, amount, rfl⟩ := hdrift
  exact hs

/-! ### When the methods succeed -/

theorem exists_moved (h : total t = t.totalSupply.toNat) (hamount : ¬t.balanceOf sender < amount) :
    ∃ u, t.debit sender amount = .ok u ∧ ∀ recipient, ∃ v, u.credit recipient amount = .ok v := by
  obtain ⟨u, hu⟩ := exists_debit hamount
  have htotal := total_debit hu
  have hsupply := t.totalSupply.isLt
  exact ⟨u, hu, fun recipient => exists_credit (by omega)⟩

theorem exists_transfer_iff (h : total t = t.totalSupply.toNat) :
    (∃ r, t.transfer usdt msgSender recipient amount = .ok r) ↔
      recipient ≠ 0 ∧ ¬t.balanceOf msgSender < amount := by
  simp only [MockUsdt.transfer, bind, Except.bind, pure, Except.pure, throw, throwThe,
    MonadExceptOf.throw]
  split_ifs with hrecipient hbalance
  · simp [hrecipient]
  · simp [hbalance]
  · obtain ⟨u, hu, hcredits⟩ := exists_moved h hbalance
    obtain ⟨v, hv⟩ := hcredits recipient
    simpa [hbalance, hu, hv] using hrecipient

theorem exists_transferFrom_iff (h : total t = t.totalSupply.toNat) :
    (∃ r, t.transferFrom usdt msgSender sender recipient amount = .ok r) ↔
      recipient ≠ 0 ∧ ¬t.balanceOf sender < amount ∧ ¬t.allowance sender msgSender < amount := by
  simp only [MockUsdt.transferFrom, bind, Except.bind, pure, Except.pure, throw, throwThe,
    MonadExceptOf.throw]
  split_ifs with hrecipient hbalance hallowance hmax
  · simp [hrecipient]
  · simp [hbalance]
  · simp [hallowance]
  · obtain ⟨u, hu, hcredits⟩ := exists_moved h hbalance
    obtain ⟨v, hv⟩ := hcredits recipient
    simpa [hbalance, hallowance, hu, hv] using hrecipient
  · have hsame : total (t.setAllowance sender msgSender
        (t.allowance sender msgSender - amount)) = t.totalSupply.toNat := h
    obtain ⟨u, hu, hcredits⟩ := exists_moved hsame hbalance
    obtain ⟨v, hv⟩ := hcredits recipient
    simpa [hbalance, hallowance, hu, hv] using hrecipient

theorem exists_mint_iff (h : total t = t.totalSupply.toNat) :
    (∃ r, t.mint usdt recipient amount = .ok r) ↔
      recipient ≠ 0 ∧ t.totalSupply.toNat + amount.toNat < 2 ^ 256 := by
  simp only [MockUsdt.mint, MockUsdt.mintTo, bind, Except.bind, pure, Except.pure, throw, throwThe,
    MonadExceptOf.throw]
  split_ifs with hrecipient
  · simp [hrecipient]
  · by_cases hfits : t.totalSupply.toNat + amount.toNat < 2 ^ 256
    · have hadd : checkedAdd t.totalSupply amount = .ok (t.totalSupply + amount) := by
        rw [checkedAdd, if_neg (not_le.mpr hfits)]
      have hroom : total { t with totalSupply := t.totalSupply + amount } + amount.toNat <
          2 ^ 256 := by
        rwa [← h] at hfits
      obtain ⟨v, hv⟩ : ∃ v, { t with totalSupply := t.totalSupply + amount }.credit recipient
          amount = .ok v := exists_credit hroom
      rw [hadd]
      refine ⟨fun _ => ⟨hrecipient, hfits⟩, fun _ => ?_⟩
      simp only [hv]
      exact ⟨_, rfl⟩
    · have hadd : checkedAdd t.totalSupply amount = .error overflow := by
        rw [checkedAdd, if_pos (not_lt.mp hfits)]
      rw [hadd]
      refine ⟨fun ⟨r, hr⟩ => ?_, fun h => absurd h.2 hfits⟩
      cases hr

/-- The token's balances add up to its supply, its logs tell every balance, and its methods fail
for the reasons they name and no other, a mint also when the supply would leave the words. -/
structure BooksInOrder (usdt : Address) (t : MockUsdt) (logs : List Log) : Prop where
  supply : ∑ a : Address, (t.balanceOf a).toNat = t.totalSupply.toNat
  told : ∀ account ≠ 0, (t.balanceOf account).toNat + sent usdt account logs =
    received usdt account logs
  transfer : ∀ msgSender recipient amount,
    (∃ r, t.transfer usdt msgSender recipient amount = .ok r) ↔
      recipient ≠ 0 ∧ ¬t.balanceOf msgSender < amount
  transferFrom : ∀ msgSender sender recipient amount,
    (∃ r, t.transferFrom usdt msgSender sender recipient amount = .ok r) ↔
      recipient ≠ 0 ∧ ¬t.balanceOf sender < amount ∧ ¬t.allowance sender msgSender < amount
  mint : ∀ recipient amount, (∃ r, t.mint usdt recipient amount = .ok r) ↔
    recipient ≠ 0 ∧ t.totalSupply.toNat + amount.toNat < 2 ^ 256

/-- After any transactions, whatever other accounts do when they are called. -/
theorem usdt_booksInOrder {w₀ : World} (h₀ : D.Constructed w₀) (h : D.Reaches w₀ w) :
    BooksInOrder D.usdt w.usdt w.logs := by
  have hw := (supplied_constructed h₀).of_reaches h
  exact ⟨hw.total, hw.told, fun _ _ _ => exists_transfer_iff hw.total,
    fun _ _ _ _ => exists_transferFrom_iff hw.total, fun _ _ => exists_mint_iff hw.total⟩

/-- Two accounts without code, of which the first has deployed both contracts. -/
def devDeployment : Deployment where
  vault := 0xda
  usdt := 0x5d
  external a := a = 0xa11ce ∨ a = 0xb0b
  distinct := by decide
  vault_code := by decide
  usdt_code := by decide
  usdt_nonzero := by decide

def devWorld : World where
  ether a := if a = 0xa11ce ∨ a = 0xb0b then 1000 else 0
  owner := 0xa11ce
  usdt := ⟨10000000000000, Function.update (fun _ => 0) 0xa11ce 10000000000000, fun _ _ => 0⟩
  logs := [transferLog 0x5d 0 0xa11ce 10000000000000, ownershipTransferredLog 0xda 0 0xa11ce]
  unsolicited := 0

theorem constructed_devWorld : devDeployment.Constructed devWorld :=
  ⟨⟨0xa11ce, _, _, by decide, rfl, rfl⟩, rfl⟩

theorem usdt_booksInOrder_transfer :
    let message : Message := ⟨0xa11ce, 0x5d, 0, transferData 0xb0b 5⟩
    let w := (devDeployment.machine.interpret (fun _ => []) [] 1 message devWorld).2
    w.usdt.balanceOf 0xb0b = 5 ∧ BooksInOrder 0x5d w.usdt w.logs :=
  ⟨by decide +kernel, usdt_booksInOrder constructed_devWorld
    (.single (Or.inr ⟨_, _, Or.inl rfl, .interpret (fun _ => List.forall_mem_nil _) 1 _ _⟩))⟩

end EtherTrade.MockUsdtLaws
