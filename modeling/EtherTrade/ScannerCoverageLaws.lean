import Mathlib.Order.Basic
import EtherTrade.DepositTransactionSteps

/-!
# The blocks behind the cursor

Scanners read the cursor, scan the blocks behind it and store where they got to, each on its
own. What a poll has read stays covered while others move the cursor: it never points past
a block that no completed scan has covered, and no scan goes beyond the safe target of a head
that a scanner has observed.
-/

namespace EtherTrade.ScannerCoverageLaws

open KeyedRows AccountsSchema DepositsSchema DepositTransactions DepositTransactionSteps
open InterleavedProcesses

variable {settings : Settings} {chain : Chain} {s s' : DepositsStore} {l l' : Process}
  {action : Action} {block : ℕ} {progress : Polling} {c d : DepositsConfig} {e : Event Action}
  {es : List (Event Action)}

/-- Every block below this one is in a completed scan. -/
def CoveredBelow (s : DepositsStore) (block : ℕ) : Prop :=
  ∀ b < block, ∃ range ∈ s.scanned, range.Covers b

/-- The poll that a process is busy with. -/
def polled : Process → Option Polling
  | .idle => none
  | .polling progress => some progress
  | .processing _ _ caller => caller

/-- What a poll relies on: a head that was observed, and that the blocks before its scan are
covered. -/
def Relies (s : DepositsStore) : Polling → Prop
  | .begun => True
  | .observed currentBlock => currentBlock ∈ s.observed
  | .resetting currentBlock => currentBlock ∈ s.observed ∧ CoveredBelow s 1
  | .scanning range => CoveredBelow s range.fromBlock
  | .nativeLogs range _ => CoveredBelow s range.fromBlock
  | .tokenLogs range _ => CoveredBelow s range.fromBlock
  | .scanned toBlock => CoveredBelow s (toBlock + 1)

/-- The cursor and the scans begun so far. -/
structure Sound (settings : Settings) (s : DepositsStore) : Prop where
  cursor : ∀ lastScanned, s.lastScannedBlock = some lastScanned → CoveredBelow s (lastScanned + 1)
  scans : ∀ range ∈ s.scans, ∃ currentBlock ∈ s.observed,
    range.toBlock ≤ currentBlock - settings.confirmations

/-- Heads and completed scans are only added. -/
structure Grows (s s' : DepositsStore) : Prop where
  observed : ∀ currentBlock ∈ s.observed, currentBlock ∈ s'.observed
  scanned : ∀ range ∈ s.scanned, range ∈ s'.scanned

theorem Grows.refl (s : DepositsStore) : Grows s s := ⟨fun _ h => h, fun _ h => h⟩

theorem CoveredBelow.mono (h : CoveredBelow s block) (hgrows : Grows s s') :
    CoveredBelow s' block := by
  intro b hb
  obtain ⟨range, hrange, hcovers⟩ := h b hb
  exact ⟨range, hgrows.scanned range hrange, hcovers⟩

theorem coveredBelow_zero : CoveredBelow s 0 := fun _ hb => absurd hb (Nat.not_lt_zero _)

theorem Relies.mono (h : Relies s progress) (hgrows : Grows s s') : Relies s' progress := by
  cases progress with
  | begun => trivial
  | observed currentBlock => exact hgrows.observed _ h
  | resetting currentBlock => exact ⟨hgrows.observed _ h.1, h.2.mono hgrows⟩
  | scanning range => exact CoveredBelow.mono h hgrows
  | nativeLogs range rest => exact CoveredBelow.mono h hgrows
  | tokenLogs range rest => exact CoveredBelow.mono h hgrows
  | scanned toBlock => exact CoveredBelow.mono h hgrows

/-! ### Steps -/

/-- What a step keeps: the cursor and the scans are sound, and so is the poll it goes on
with. -/
structure ScanSpec (settings : Settings) (s s' : DepositsStore) (l' : Process) : Prop where
  grows : Grows s s'
  sound : Sound settings s'
  relies : ∀ progress, polled l' = some progress → Relies s' progress

theorem scanSpec_same (hs : Sound settings s) (hrelies : ∀ progress, polled l' = some progress →
    Relies s progress) : ScanSpec settings s s l' :=
  ⟨.refl s, hs, hrelies⟩

/-- A scan begins where the covered blocks end. -/
theorem scanSpec_scanFrom {currentBlock fromBlock : ℕ} (hs : Sound settings s)
    (hobserved : currentBlock ∈ s.observed) (hcovered : CoveredBelow s fromBlock)
    (hscan : scanFrom settings s currentBlock fromBlock = (s', l')) :
    ScanSpec settings s s' l' := by
  rcases scanFrom_cases settings s currentBlock fromBlock with hidle | ⟨range, hfrom, hto, hrange⟩
  · obtain ⟨rfl, rfl⟩ := Prod.mk.inj (hidle.symm.trans hscan)
    exact scanSpec_same hs fun _ h => (Option.some_ne_none _ h.symm).elim
  · obtain ⟨rfl, rfl⟩ := Prod.mk.inj (hrange.symm.trans hscan)
    refine ⟨⟨fun _ h => h, fun _ h => h⟩, ⟨hs.cursor, fun scan hscan => ?_⟩, fun progress h => ?_⟩
    · rcases List.mem_append.mp hscan with hold | hnew
      · exact hs.scans scan hold
      · obtain rfl := List.mem_singleton.mp hnew
        exact ⟨currentBlock, hobserved, hto⟩
    · obtain rfl := Option.some.inj h
      change CoveredBelow s range.fromBlock
      rwa [hfrom]

theorem poll_spec (hs : Sound settings s) (hrelies : Relies s progress)
    (h : PollStep settings chain s progress s' l') : ScanSpec settings s s' l' := by
  have hkeep (progress' : Polling) (hnext : Relies s progress') (progress : Polling)
      (h : some progress' = some progress) : Relies s progress := Option.some.inj h ▸ hnext
  cases h with
  | failed => exact scanSpec_same hs fun _ h => (Option.some_ne_none _ h.symm).elim
  | observed currentBlock =>
    have hgrows : Grows s { s with observed := s.observed ++ [currentBlock] } :=
      ⟨fun _ h => List.mem_append_left _ h, fun _ h => h⟩
    refine ⟨hgrows, ⟨hs.cursor, fun range hrange => ?_⟩, fun progress h => ?_⟩
    · obtain ⟨head, hhead, hto⟩ := hs.scans range hrange
      exact ⟨head, hgrows.observed head hhead, hto⟩
    · obtain rfl := Option.some.inj h
      exact List.mem_append_right _ List.mem_cons_self
  | resetting hcursor =>
    refine scanSpec_same hs (hkeep _ ⟨hrelies, fun b hb => ?_⟩)
    exact hs.cursor _ hcursor b (by omega)
  | planned hfrom hscan =>
    refine scanSpec_scanFrom hs hrelies ?_ hscan
    rcases hfrom with ⟨-, rfl⟩ | ⟨lastScanned, hcursor, rfl⟩
    · exact coveredBelow_zero
    · exact hs.cursor _ hcursor
  | reset hscan =>
    -- block 0 is covered: the cursor that made the poll start over was stored before
    have hsound : Sound settings { s with lastScannedBlock := some 0 } := by
      refine ⟨fun lastScanned h => ?_, hs.scans⟩
      obtain rfl := Option.some.inj h
      exact hrelies.2
    have hspec := scanSpec_scanFrom (s := { s with lastScannedBlock := some 0 }) hsound hrelies.1
      hrelies.2 hscan
    exact ⟨⟨hspec.grows.observed, hspec.grows.scanned⟩, hspec.sound, hspec.relies⟩
  | gotNatives => exact scanSpec_same hs (hkeep _ hrelies)
  | tookNative => exact scanSpec_same hs (hkeep _ hrelies)
  | gotTokens => exact scanSpec_same hs (hkeep _ hrelies)
  | tookToken => exact scanSpec_same hs (hkeep _ hrelies)
  | @completed range =>
    have hgrows : Grows s { s with scanned := s.scanned ++ [range] } :=
      ⟨fun _ h => h, fun _ h => List.mem_append_left _ h⟩
    refine ⟨hgrows, ⟨fun _ h => (hs.cursor _ h).mono hgrows, hs.scans⟩, fun progress h => ?_⟩
    obtain rfl := Option.some.inj h
    intro b hb
    by_cases hbefore : b < range.fromBlock
    · exact CoveredBelow.mono hrelies hgrows b hbefore
    · exact ⟨range, List.mem_append_right _ List.mem_cons_self,
        Nat.le_of_not_lt hbefore, Nat.le_of_lt_succ hb⟩
  | advanced =>
    refine ⟨⟨fun _ h => h, fun _ h => h⟩, ⟨fun lastScanned h => ?_, hs.scans⟩,
      fun _ h => (Option.some_ne_none _ h.symm).elim⟩
    obtain rfl := Option.some.inj h
    exact hrelies

/-- The columns and records of the scanner. -/
def scanner (s : DepositsStore) : Option ℕ × List ℕ × List BlockRange × List BlockRange :=
  (s.lastScannedBlock, s.observed, s.scans, s.scanned)

theorem scanner_createDeposit {deposit : NewWalletDeposit} {newId : Uuid}
    (h : createDeposit s deposit newId = some s') : scanner s' = scanner s := by
  unfold createDeposit at h
  dsimp only at h
  split at h <;> cases h
  rfl

@[simp] theorem polled_resume {caller : Option Polling} : polled (resume caller) = caller := by
  cases caller <;> rfl

/-- `processDepositEvent` leaves the scanner alone and returns to its caller. -/
theorem deposit_spec {event : DepositEvent} {caller : Option Polling} {progress : Processing}
    (h : DepositStep settings s event caller progress action s' l') :
    scanner s' = scanner s ∧ (polled l' = none ∨ polled l' = caller) := by
  cases h with
  | failed => exact ⟨rfl, Or.inl rfl⟩
  | inserted hcreate =>
    refine ⟨scanner_createDeposit hcreate, Or.inr ?_⟩
    split
    · rfl
    · exact polled_resume
  | insertedUnheard hcreate => exact ⟨scanner_createDeposit hcreate, Or.inl rfl⟩
  | retried => exact ⟨rfl, Or.inr rfl⟩
  | prepared => exact ⟨rfl, Or.inr rfl⟩
  | credited => exact ⟨rfl, Or.inr rfl⟩
  | _ => exact ⟨rfl, Or.inr polled_resume⟩

theorem scanSpec_of_scanner (hs : Sound settings s) (h : scanner s' = scanner s)
    (hrelies : ∀ progress, polled l' = some progress → Relies s progress) :
    ScanSpec settings s s' l' := by
  simp only [scanner, Prod.mk.injEq] at h
  obtain ⟨hcursor, hobserved, hscans, hscanned⟩ := h
  have hgrows : Grows s s' := ⟨fun _ h => hobserved ▸ h, fun _ h => hscanned ▸ h⟩
  refine ⟨hgrows, ⟨fun lastScanned h => ?_, fun range hrange => ?_⟩,
    fun progress h => (hrelies progress h).mono hgrows⟩
  · exact (hs.cursor lastScanned (hcursor ▸ h)).mono hgrows
  · obtain ⟨head, hhead, hto⟩ := hs.scans range (hscans ▸ hrange)
    exact ⟨head, hgrows.observed head hhead, hto⟩

theorem step_spec (hs : Sound settings s) (hrelies : ∀ progress, polled l = some progress →
      Relies s progress) (h : ProcessStep settings chain s l action s' l') :
    ScanSpec settings s s' l' := by
  cases h with
  | started =>
    refine scanSpec_same hs fun progress h => ?_
    obtain rfl := Option.some.inj h
    trivial
  | poll h => exact poll_spec hs (hrelies _ rfl) h
  | deposit h =>
    obtain ⟨hscanner, hnone | hcaller⟩ := deposit_spec h
    · exact scanSpec_of_scanner hs hscanner fun _ h =>
        (Option.some_ne_none _ (h.symm.trans hnone)).elim
    · exact scanSpec_of_scanner hs hscanner fun progress h => hrelies progress (hcaller.symm.trans h)
  | delivered => exact scanSpec_same hs fun _ h => (Option.some_ne_none _ h.symm).elim
  | _ => exact scanSpec_of_scanner hs rfl fun _ h => (Option.some_ne_none _ h.symm).elim

/-! ### Runs -/

/-- The invariant of the scanners. -/
structure Coverage (settings : Settings) (c : DepositsConfig) : Prop where
  sound : Sound settings c.shared
  relies : ∀ p progress, polled (c.procs p) = some progress → Relies c.shared progress

theorem coverage_initial : Coverage settings initial where
  sound := ⟨fun _ h => (Option.some_ne_none _ h.symm).elim,
    fun _ h => absurd h List.not_mem_nil⟩
  relies _ _ h := (Option.some_ne_none _ h.symm).elim

theorem coverage_next (hc : Coverage settings c)
    (h : (depositsSystem settings chain).next c e = some d) : Coverage settings d := by
  obtain ⟨s', l', hs, rfl⟩ := next_cases h
  have hspec := step_spec hc.sound (hc.relies e.proc) hs
  refine ⟨hspec.sound, fun p progress hp => ?_⟩
  by_cases hpe : p = e.proc
  · subst hpe
    exact hspec.relies progress ((congrArg polled (Function.update_self ..)).symm.trans hp)
  · have hbefore := (congrArg polled (Function.update_of_ne hpe _ _)).symm.trans hp
    exact (hc.relies p progress hbefore).mono hspec.grows

/-- Deposit scanner coverage: at every moment of every run of any number of scanners, each
block up to the cursor has been covered by a scan that completed, and no scan covers a block
beyond the safe target of a head that was observed. -/
theorem blocks_covered (h : (depositsSystem settings chain).exec initial es = some c) :
    (∀ lastScanned, c.shared.lastScannedBlock = some lastScanned → ∀ block ≤ lastScanned,
      ∃ range ∈ c.shared.scanned, range.Covers block) ∧
    ∀ range ∈ c.shared.scans, ∃ currentBlock ∈ c.shared.observed, ∀ block,
      range.Covers block → (block : ℤ) ≤ max 0 ((currentBlock : ℤ) - settings.confirmations) := by
  have hc : Coverage settings c :=
    System.exec_invariant h coverage_initial fun _ _ _ => coverage_next
  constructor
  · intro lastScanned hcursor block hblock
    exact hc.sound.cursor lastScanned hcursor block (Nat.lt_succ_of_le hblock)
  · intro range hrange
    obtain ⟨currentBlock, hobserved, hto⟩ := hc.sound.scans range hrange
    refine ⟨currentBlock, hobserved, fun block hcovers => ?_⟩
    have hblock := hcovers.2.trans hto
    omega

def noLogs : Chain :=
  ⟨[], fun _ h => absurd h List.not_mem_nil, fun _ h => absurd h List.not_mem_nil,
    fun _ h => absurd h List.not_mem_nil⟩

def twoConfirmations : Settings := ⟨2, "0xusdt", fun _ => true⟩

/-- A poll at head 2500 scans the first 2000 blocks. A second one has observed the same head,
and a third one finds the chain reset to block 1000, before the second goes on. -/
def resetMeanwhile : List (Event Action) :=
  [⟨0, .pollBlocks⟩, ⟨0, .getBlockNumber 2500⟩] ++ List.replicate 5 ⟨0, .statement⟩ ++
    [⟨1, .pollBlocks⟩, ⟨1, .getBlockNumber 2500⟩, ⟨1, .statement⟩, ⟨2, .pollBlocks⟩,
      ⟨2, .getBlockNumber 1000⟩] ++ List.replicate 6 ⟨2, .statement⟩ ++
        List.replicate 4 ⟨1, .statement⟩

theorem resetMeanwhile_executes :
    ((depositsSystem twoConfirmations noLogs).exec initial resetMeanwhile).isSome = true := by
  decide +kernel

theorem blocks_covered_resetMeanwhile :
    let s := (((depositsSystem twoConfirmations noLogs).exec initial resetMeanwhile).get
      resetMeanwhile_executes).shared
    s.lastScannedBlock = some 2498 ∧ ∀ block ≤ 2498, ∃ range ∈ s.scanned, range.Covers block := by
  have hcursor : (((depositsSystem twoConfirmations noLogs).exec initial resetMeanwhile).get
      resetMeanwhile_executes).shared.lastScannedBlock = some 2498 := by
    decide +kernel
  exact ⟨hcursor, (blocks_covered (Option.some_get resetMeanwhile_executes).symm).1 2498 hcursor⟩

end EtherTrade.ScannerCoverageLaws
