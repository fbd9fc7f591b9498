import EtherTrade.CopiedSellLaws
import EtherTrade.CopySizeLaws
import EtherTrade.MasterBalanceSteps
import EtherTrade.OrderFillLaws

/-!
# Copies of the size of their master's decision

The size of a copy against what its master had just before the order was placed. The balance
that replication reads is what is available after the order has locked its funds, and perhaps
after some of its trades are settled. Sizes are those of the decision in the runs in which that
balance is nevertheless what the master had before.
-/

namespace EtherTrade.MirroredSizeLaws

open DecimalNumbers KeyedRows AccountsSchema CopyTradingSchema InterleavedProcesses
open OrdersSchema hiding TradeExecutedEvent
open SequentialRequests CopyRatioCalculator CopiedPositions CopySizeLaws CopiedSellLaws
open MasterTradeReplication (CopyStore Copying ReplicationSideTask targetQuantity copyStep)
open MasterTradeReplicationSteps (workerOf runningOn runningOn_kept runningOn_balanced)
open FollowerLocks (Holds holds_next)
open BalancesService (validateUserId normalizeCurrency)
open MasterBalances MasterBalanceSteps

/-! ### Sizes -/

/-- The size is the part of `base` that `part` is of `whole`, rounded down to eight decimals,
with a ratio that is right up to its last place. -/
def Mirrors (base part whole : ℚ) (size : BigNumber) : Prop :=
  ∃ ratio, |ratio - part / whole| ≤ 1 / (2 * 10 ^ 20) ∧
    size = .finite (roundDown (base * ratio) / scale)

theorem mirrors_zero {base part whole : ℚ} (h : base = 0 ∨ part = 0) :
    Mirrors base part whole (.finite 0) := by
  refine ⟨part / whole, by norm_num, ?_⟩
  have hnothing : base * (part / whole) = 0 := by
    rcases h with rfl | rfl <;> simp
  rw [hnothing]
  simp [roundDown]

/-- The size of a copied purchase. -/
theorem mirrors_buy (q f : ℕ) {m : ℤ} (hm : 0 < m) :
    Mirrors (q / scale) (f / scale) (m / scale)
      (calculateBuyQuantity (amount q) (amount m) (amount f)).value := by
  have hscale := scale_pos
  by_cases hsome : 0 < q ∧ 0 < f
  · obtain ⟨hq, hf⟩ := hsome
    have hcond : ¬(((amount m).isLessThanOrEqualTo zero || (amount f).isLessThanOrEqualTo zero ||
        (amount q).isLessThanOrEqualTo zero) = true) := by
      simp only [amount_isLessThanOrEqualTo_zero, Bool.or_eq_true, decide_eq_true_eq]
      omega
    have hratio : (0 : ℚ) ≤ f / m := by positivity
    have hproduct : (amount q).multipliedBy ((amount f).dividedBy (amount m)) =
        .finite (q / scale * roundQuotient (f / m)) := by
      rw [dividedBy_amount _ _ hm.ne', Int.cast_natCast]
      rfl
    refine ⟨roundQuotient (f / m), ?_, ?_⟩
    · rw [div_div_div_cancel_right₀ hscale.ne']
      exact abs_roundQuotient_sub_le hratio
    · rw [calculateBuyQuantity, if_neg hcond, hproduct, toFixed_down_of_nonneg]
      exact mul_nonneg (by positivity) (roundQuotient_nonneg hratio)
  · have hcond : ((amount m).isLessThanOrEqualTo zero || (amount f).isLessThanOrEqualTo zero ||
        (amount q).isLessThanOrEqualTo zero) = true := by
      simp only [amount_isLessThanOrEqualTo_zero, Bool.or_eq_true, decide_eq_true_eq]
      omega
    rw [calculateBuyQuantity, if_pos hcond, toFixed_zero]
    apply mirrors_zero
    have hnone : q = 0 ∨ f = 0 := by omega
    exact hnone.imp (by simp [·]) (by simp [·])

/-- The size of a copied sale, of which the master had at least as much. -/
theorem mirrors_sell (s : ℕ) {h : ℤ} (bought sold : ℤ) (hh : 0 < h) (hs : (s : ℤ) ≤ h) :
    Mirrors ((max (bought - sold) 0 : ℤ) / scale) (s / scale) (h / scale)
      (sellQuantity s h bought sold) := by
  have hscale := scale_pos
  have hposition : (0 : ℚ) ≤ ((max (bought - sold) 0 : ℤ) : ℚ) / scale :=
    div_nonneg (Int.cast_nonneg (le_max_right _ _)) hscale.le
  rw [sellQuantity_eq, soldUnits]
  by_cases hsome : 0 < s
  · have hratio : (0 : ℚ) ≤ s / h := by positivity
    have hone : roundQuotient (s / h) ≤ 1 := by
      have hexact := roundQuotient_parts (10 ^ 20)
      rw [Nat.cast_pow, Nat.cast_ofNat, div_self (by norm_num)] at hexact
      rw [← hexact]
      refine roundQuotient_mono hratio ?_
      rw [div_le_one (Int.cast_pos.mpr hh)]
      exact_mod_cast hs
    refine ⟨roundQuotient (s / h), ?_, ?_⟩
    · rw [div_div_div_cancel_right₀ hscale.ne']
      exact abs_roundQuotient_sub_le hratio
    · rw [soldPart, if_neg (by omega), Int.cast_natCast,
        min_eq_left (mul_le_of_le_one_right hposition hone), amount]
  · obtain rfl : s = 0 := by omega
    have hnothing : amount (roundDown (soldPart ((0 : ℕ) : ℤ) h (max (bought - sold) 0))) =
        .finite 0 := by
      rw [soldPart, if_pos (by omega)]
      simp [roundDown, amount]
    rw [hnothing]
    exact mirrors_zero (Or.inr (by simp))

/-! ### Copies -/

/-- What the master had just before the order was placed: of the quote currency what was
available, of the base currency also what was locked. -/
def heldBefore (placement : Placement) (task : ReplicationSideTask) : ℤ :=
  let balances :=
    (accountBalances placement.accounts task.masterUserId (balanceCurrency task)).getD 0
  match task.side with
  | .buy => balances.1
  | .sell => balances.1 + balances.2

/-- No other order of the master was open, and no balance of his was cached. -/
def PlacedAlone (placement : Placement) (task : ReplicationSideTask) : Prop :=
  (∀ order ∈ placement.orders.orders, order.userId = task.masterUserId →
    order.status ∉ OrderStatus.cancellable) ∧
      placement.cached (task.masterUserId, balanceCurrency task) = none

/-- The size of a copy is that of the master's decision: for a purchase the traded quantity by
the ratio of the allocation to what the master had, for a sale the net position by the ratio
of the traded quantity to it. -/
def Mirrored (s : CopyStore) (placement : Placement) (task : ReplicationSideTask)
    (subscriber : CopySubscription) (traded : ℕ) (size : BigNumber) : Prop :=
  match task.side with
  | .buy => ∀ allocated : ℕ, subscriber.allocatedBalance = allocated →
      Mirrors (traded / scale) (allocated / scale) (heldBefore placement task / scale) size
  | .sell => Mirrors ((max (completedUnits s.db subscriber.id task.pair .buy -
      completedUnits s.db subscriber.id task.pair .sell) 0 : ℤ) / scale) (traded / scale)
        (heldBefore placement task / scale) size

/-- What the master had before the order is something, and of a sale at least what is traded. -/
structure HeldEnough (placement : Placement) (task : ReplicationSideTask) : Prop where
  positive : 0 < heldBefore placement task
  covers : task.side = .sell →
    task.masterQuantity.isLessThanOrEqualTo (amount (heldBefore placement task)) = true

instance (placement : Placement) (task : ReplicationSideTask) :
    Decidable (PlacedAlone placement task) := by
  unfold PlacedAlone
  infer_instance

instance (placement : Placement) (task : ReplicationSideTask) :
    Decidable (HeldEnough placement task) :=
  decidable_of_iff (0 < heldBefore placement task ∧ (task.side = .sell →
    task.masterQuantity.isLessThanOrEqualTo (amount (heldBefore placement task)) = true))
    ⟨fun h => ⟨h.1, h.2⟩, fun h => ⟨h.positive, h.covers⟩⟩

variable {s s' : CopyStore} {placement : Placement} {task : ReplicationSideTask}
  {subscriber : CopySubscription} {traded : ℕ} {balance : BigNumber}

/-- Sized on what the master had before the order, a copy is of the size of its decision. -/
theorem mirrored_targetQuantity (hcounted : Counted s.db) (hheld : HeldEnough placement task)
    (htraded : task.masterQuantity = amount traded) :
    Mirrored s placement task subscriber traded
      (targetQuantity s task (amount (heldBefore placement task)) subscriber).value := by
  obtain ⟨hpositive, hcovers⟩ := hheld
  unfold Mirrored targetQuantity
  cases hside : task.side with
  | buy =>
    intro allocated hallocated
    have hfollower : BigNumber.finite (subscriber.allocatedBalance / scale) =
        amount (allocated : ℤ) := by
      rw [hallocated, amount]
    rw [htraded, hfollower]
    exact mirrors_buy traded allocated hpositive
  | sell =>
    simp only [CopyTradingDb.getSubscriptionPosition, totalQuantity_eq hcounted, htraded]
    rw [htraded, amount_isLessThanOrEqualTo, decide_eq_true_eq] at hcovers
    exact mirrors_sell traded _ _ hpositive (hcovers hside)

/-! ### Reads of balances -/

variable (isValidUuid : String → Bool)

/-- The units of an account that the accounts service answers with. -/
def availableUnits (db : AccountsDb) (userId : Uuid) (currency : Currency) : Option ℤ :=
  match validateUserId isValidUuid userId, normalizeCurrency currency with
  | .ok userId, .ok currency => (accountBalances db userId currency).map Prod.fst
  | _, _ => none

/-- A read answers with so many units: they are cached, or the accounts service is asked and
answers that they are available. -/
def Sees (s : ExchangeStore) (read : BalanceRead) (userId : Uuid) (currency : Currency)
    (units : ℤ) : Prop :=
  match if read.cacheRead then s.cached (userId, currency) else none with
  | some available => available = amount units
  | none => read.delivery = .answered ∧
      availableUnits isValidUuid s.accounts userId currency = some units

instance (s : ExchangeStore) (read : BalanceRead) (userId : Uuid) (currency : Currency)
    (units : ℤ) : Decidable (Sees isValidUuid s read userId currency units) := by
  unfold Sees
  split <;> infer_instance

variable {isValidUuid} {x x' : ExchangeStore} {read : BalanceRead} {userId : Uuid}
  {currency : Currency} {units : ℤ}

theorem getMasterOrFollowerBalance_of_sees (h : Sees isValidUuid x read userId currency units) :
    (getMasterOrFollowerBalance isValidUuid x read userId currency).2 = amount units := by
  unfold Sees at h
  unfold getMasterOrFollowerBalance
  cases hcached : if read.cacheRead then x.cached (userId, currency) else none with
  | some available =>
    rw [hcached] at h
    exact h
  | none =>
    rw [hcached] at h
    obtain ⟨hanswered, havailable⟩ := h
    have hserved : ∃ account,
        (getBalance isValidUuid read.newId userId currency x.accounts).2 = some account ∧
          account.availableBalance = units := by
      unfold availableUnits at havailable
      cases huser : validateUserId isValidUuid userId with
      | error exception => simp [huser] at havailable
      | ok user =>
        cases hcode : normalizeCurrency currency with
        | error exception => simp [huser, hcode] at havailable
        | ok code =>
          simp only [huser, hcode] at havailable
          obtain ⟨balances, hbalances, rfl⟩ := Option.map_eq_some_iff.mp havailable
          obtain ⟨account, hfound, rfl⟩ := Option.map_eq_some_iff.mp hbalances
          refine ⟨account, ?_, rfl⟩
          simp [getBalance, huser, hcode, BalanceMutations.findOrCreate, hfound, Except.toOption]
    obtain ⟨account, haccount, rfl⟩ := hserved
    simp only [hanswered, haccount]
    rfl

/-! ### Runs -/

abbrev ExchangeTransition := System.Transition ExchangeStore Process Action

/-- The quantity that a worker has just sized its copy to. -/
def sized : Copying → Option NumberText
  | .skipping quantity => some quantity
  | .ordering request => some request.amount
  | _ => none

/-- In every run step that sizes a copy of a trade, for an order of the master that was placed
alone, the size is that of the master's decision. -/
def SizesMirrored (ts : List ExchangeTransition) : Prop :=
  ∀ t ∈ ts, ∀ p i task subscriber lockToken copying quantity placement traded,
    Holds (copyConfig t.before) p i task subscriber lockToken .sizing →
      Holds (copyConfig t.after) p i task subscriber lockToken copying →
        sized copying = some quantity → (t.before.procs p).2 = some placement →
          PlacedAlone placement task → task.masterQuantity = amount (traded : ℕ) →
            Mirrored t.before.shared.copying placement task subscriber traded quantity.value

/-- A balance that is read for a trade, of an order of the master that was placed alone, is what
the master had before. -/
def ReadAsBefore (isValidUuid : String → Bool) (c : ExchangeConfig) (e : Event Action) : Prop :=
  ∀ read h task subscribers placement, e.action = .balance read →
    (c.procs e.proc).1 = .handling h → h.point = .balancing task subscribers →
      (tradedOrder c.shared h.trade task.side).bind c.shared.placed = some placement →
        PlacedAlone placement task → HeldEnough placement task ∧
          Sees isValidUuid c.shared read task.masterUserId (balanceCurrency task)
            (heldBefore placement task)

/-- Rows are told truly, and workers run on the balance from before the order. -/
structure Mirroring (c : ExchangeConfig) : Prop where
  recorded : Recorded (copyConfig c)
  balanced : ∀ p task balance placement, runningOn (c.procs p).1 = some (task, balance) →
    (c.procs p).2 = some placement → PlacedAlone placement task →
      HeldEnough placement task ∧ balance = amount (heldBefore placement task)

variable {c d : ExchangeConfig} {e : Event Action}

theorem mirroring_initial : Mirroring initial where
  recorded := recorded_initial
  balanced _ _ _ _ hrunning := nomatch hrunning

theorem mirroring_next (hc : Mirroring c) (hguard : ReadAsBefore isValidUuid c e)
    (hnext : (exchangeSystem isValidUuid).next c e = some d) : Mirroring d := by
  constructor
  · rcases copyConfig_next hnext with hsame | ⟨copyAction, hcopy⟩
    · rw [hsame]
      exact hc.recorded
    · exact recorded_next hc.recorded hcopy
  · obtain ⟨x', l', hstep, rfl⟩ := System.next_eq_some.mp hnext
    intro p task balance placement hrunning hplacement halone
    by_cases hp : p = e.proc
    · subst hp
      simp only [Function.update_self] at hrunning hplacement
      have hold := hc.balanced e.proc task balance placement
      have hread := hguard
      unfold ReadAsBefore at hread
      have heffect := step_cases hstep
      generalize e.action = action at heffect hread
      generalize c.procs e.proc = l at heffect hold hread
      cases heffect with
      | copied hother hcopy => exact hold (runningOn_kept hother hcopy hrunning) hplacement halone
      | balanced hpoint hcopy =>
        obtain ⟨rfl, rfl⟩ := runningOn_balanced hpoint hcopy hrunning
        obtain ⟨hheld, hsees⟩ := hread _ _ _ _ _ rfl rfl hpoint hplacement halone
        exact ⟨hheld, getMasterOrFollowerBalance_of_sees hsees⟩
      | outside => exact hold hrunning hplacement halone
    · simp only [Function.update_of_ne hp] at hrunning hplacement
      exact hc.balanced p task balance placement hrunning hplacement halone

/-- A worker sizes on the balance that its process has read. -/
theorem quantity_of_sized {workerAction : MasterTradeReplication.WorkerAction}
    {copying : Copying} {quantity : NumberText}
    (hstep : copyStep s task balance subscriber .sizing workerAction = some (s', copying))
    (hsized : sized copying = some quantity) :
    quantity = targetQuantity s task balance subscriber := by
  cases workerAction with
  | statement =>
    simp only [copyStep] at hstep
    split at hstep <;> cases hstep <;> cases hsized <;> rfl
  | fail message =>
    simp only [copyStep] at hstep
    split at hstep <;> cases hstep
    cases hsized
  | _ => cases hstep

/-- In a run in which each balance, read for a trade of an order of the master that was placed
alone, is what the master had before that order, copies are sized by the master's decision. -/
theorem sizes_mirrored (isValidUuid : String → Bool) (es : List (Event Action))
    (d : ExchangeConfig)
    (h : (exchangeSystem isValidUuid).Run (ReadAsBefore isValidUuid) initial es d) :
    SizesMirrored ((exchangeSystem isValidUuid).transitions initial es) := by
  intro t ht p i task subscriber lockToken copying quantity placement traded hbefore hafter hsized
    hplacement halone htraded
  obtain ⟨hc, -, hnext⟩ := h.transitions_invariant mirroring_initial
    (fun _ _ _ => mirroring_next) t ht
  have hsizing (hold : Holds (copyConfig t.before) p i task subscriber lockToken copying) :
      copying = .sizing := by
    have hsame := hold.symm.trans hbefore
    cases hsame
    rfl
  rcases copyConfig_next hnext with hsame | ⟨copyAction, hcopy⟩
  · rw [hsame] at hafter
    rw [hsizing hafter] at hsized
    cases hsized
  · rcases holds_next hcopy hafter with ⟨hold, -⟩ | ⟨copying', workerAction, balance, -, hold,
      hrunning, hstep⟩ | ⟨locks, -, rfl, -⟩
    · rw [hsizing hold] at hsized
      cases hsized
    · have hsame := hold.symm.trans hbefore
      cases hsame
      obtain ⟨hheld, rfl⟩ := hc.balanced p task balance placement hrunning hplacement halone
      rw [quantity_of_sized hstep hsized]
      exact mirrored_targetQuantity (counted_of_rowsTold hc.recorded.rows) hheld htraded
    · cases hsized

/-! ### A purchase with half of what the master has -/

/-- A size is at most what the ratio gives. -/
theorem Mirrors.le {base part whole q : ℚ} (h : Mirrors base part whole (.finite q))
    (hbase : 0 ≤ base) : q ≤ base * (part / whole + 1 / (2 * 10 ^ 20)) := by
  obtain ⟨ratio, hratio, hsize⟩ := h
  have hq : q = roundDown (base * ratio) / scale := BigNumber.finite.inj hsize
  have hfloor : (roundDown (base * ratio) : ℚ) ≤ base * ratio * scale := Int.floor_le _
  calc q ≤ base * ratio := by rw [hq, div_le_iff₀ scale_pos]; exact hfloor
    _ ≤ base * (part / whole + 1 / (2 * 10 ^ 20)) := by
      apply mul_le_mul_of_nonneg_left _ hbase
      linarith [(abs_le.mp hratio).2]

/-- Any text is the id of a user. -/
def anyUuid : String → Bool := fun _ => true

/-- What happens outside replication. -/
def outside (actions : List Action) : List (Event Action) :=
  actions.map fun action => ⟨9, action⟩

def deposit (userId : Uuid) (currency : Currency) (coins : ℕ) (idempotencyKey : String) : Action :=
  .accounts (.call .deposit idempotencyKey ⟨userId, currency, .coins coins, idempotencyKey, none⟩)

/-- A call of the orders service whose lock is served and answered. -/
def ordersCall (call : ℕ) (actions : List OrdersTransactions.Action) : List Action :=
  actions.map fun action =>
    match action with
    | .reply _ => .saga call (.balanceCall .answered "")
    | action => .saga call (.orders action)

/-- A call up to the read of the opposing book, and on. -/
def limitOrder (userId : Uuid) (side : OrderSide) (orderId : Uuid)
    (matching : List OrdersTransactions.Action) : List OrdersTransactions.Action :=
  [.createOrder (OrderFillLaws.limitOrder userId side 100 1), .statement, .insert userId,
    .statement, .reply .ok, .insert orderId, .statement, .statement, .statement] ++ matching

/-- A unit is on offer at a hundred, and a master who has two hundred buys it. -/
def purchase : List (Event Action) :=
  outside ([deposit "seller" .eth 1 "first", deposit "master" .usdt 200 "second"] ++
    ordersCall 0 (limitOrder "seller" .sell "ask" (List.replicate 8 .statement)) ++
      ordersCall 1 (limitOrder "master" .buy "bid" (List.replicate 4 .statement ++
        [.trade "trade"] ++ List.replicate 8 .statement)))

/-- The purchase as its event tells it. -/
def purchased : TradeSettlement.TradeExecutedEvent where
  tradeId := "trade"
  buyerUserId := "master"
  sellerUserId := "seller"
  symbol := ⟨.eth, .usdt⟩
  price := .finite 100
  quantity := .finite 1
  buyerLimitPrice := .finite 100

/-- A follower with an allocation of a thousand has the purchase copied. -/
def replication : List (Event Action) :=
  [⟨9, .copying (.activateMaster "master" (some "m"))⟩,
    ⟨9, .copying (.createSubscription ⟨"sub", "follower", "m", 1000 * 10 ^ 8, 100, .active⟩)⟩,
    ⟨0, .copying (.deliver ⟨"0", some ⟨"event", TradeSettlement.tradeExecuted,
      "matching.trade_executed", some purchased⟩, ""⟩)⟩,
    ⟨0, .copying .statement⟩, ⟨0, .copying .statement⟩, ⟨0, .balance ⟨true, .answered, true, ""⟩⟩,
    ⟨0, .copying (.worker 0 (.acquire "token"))⟩, ⟨0, .copying (.worker 0 .statement)⟩]

/-- What the first worker of the first process has just sized a copy to, of a purchase of an
order that was placed alone: the traded quantity, the allocation, what the master had before,
and the size. -/
def sizedCopy (t : ExchangeTransition) : Option (BigNumber × ℤ × ℤ × BigNumber) :=
  match workerOf (t.before.procs 0).1 0, workerOf (t.after.procs 0).1 0, (t.before.procs 0).2 with
  | some (task, ⟨subscriber, .holding lockToken .sizing⟩),
      some (task', ⟨subscriber', .holding lockToken' copying⟩), some placement =>
    if (task, subscriber, lockToken) = (task', subscriber', lockToken') ∧ task.side = .buy ∧
        PlacedAlone placement task then
      (sized copying).map fun quantity => (task.masterQuantity, subscriber.allocatedBalance,
        heldBefore placement task, quantity.value)
    else none
  | _, _, _ => none

theorem mirrors_sizedCopy {ts : List ExchangeTransition} (h : SizesMirrored ts)
    {t : ExchangeTransition} (ht : t ∈ ts) {traded allocated : ℕ} {held : ℤ} {size : BigNumber}
    (hcopy : sizedCopy t = some (amount traded, (allocated : ℤ), held, size)) :
    Mirrors (traded / scale) (allocated / scale) (held / scale) size := by
  unfold sizedCopy at hcopy
  split at hcopy
  · next task subscriber lockToken task' subscriber' lockToken' copying placement hbefore hafter
      hplacement =>
    split at hcopy
    · next hsame =>
      obtain ⟨hworker, hside, halone⟩ := hsame
      cases hworker
      obtain ⟨quantity, hsized, heq⟩ := Option.map_eq_some_iff.mp hcopy
      obtain ⟨htraded, hallocated, rfl, rfl⟩ : _ ∧ _ ∧ _ ∧ _ := by simpa using heq
      have hmirrored := h t ht 0 0 task subscriber lockToken copying quantity placement traded
        hbefore hafter hsized hplacement halone htraded
      unfold Mirrored at hmirrored
      rw [hside] at hmirrored
      exact hmirrored allocated hallocated
    · cases hcopy
  · cases hcopy

theorem purchase_executes :
    ((exchangeSystem anyUuid).exec initial (purchase ++ replication)).isSome = true ∧
      ((exchangeSystem anyUuid).transitions initial (purchase ++ replication)).filterMap sizedCopy =
        [(amount (10 ^ 8 : ℕ), ((1000 * 10 ^ 8 : ℕ) : ℤ), 200 * 10 ^ 8, .finite 10)] := by
  decide +kernel

/-- Half of what the master had is locked when the balance is read: the copy is of twice the
size. -/
theorem not_sizes_mirrored_purchase : ¬∀ isValidUuid es d,
    (exchangeSystem isValidUuid).exec initial es = some d →
      SizesMirrored ((exchangeSystem isValidUuid).transitions initial es) := by
  intro hall
  obtain ⟨hexec, hsized⟩ := purchase_executes
  obtain ⟨d, hexec⟩ := Option.isSome_iff_exists.mp hexec
  have hmirrored := hall anyUuid _ d hexec
  obtain ⟨t, ht, hcopy⟩ := List.mem_filterMap.mp (hsized ▸ List.mem_cons_self)
  have hle := (mirrors_sizedCopy hmirrored ht hcopy).le
    (div_nonneg (Nat.cast_nonneg _) scale_pos.le)
  norm_num [scale] at hle

/-- The master has as much available again when the balance is read. -/
def toppedUp : List (Event Action) :=
  purchase ++ outside [deposit "master" .usdt 100 "third"] ++ replication

/-- The condition on reads of balances, checked on a transition. -/
def readAsBefore (isValidUuid : String → Bool) (t : ExchangeTransition) : Bool :=
  match t.event.action, (t.before.procs t.event.proc).1 with
  | .balance read, .handling h =>
    match h.point with
    | .balancing task _ =>
      ((tradedOrder t.before.shared h.trade task.side).bind t.before.shared.placed).all
        fun placement => !decide (PlacedAlone placement task) || decide (HeldEnough placement task ∧
          Sees isValidUuid t.before.shared read task.masterUserId (balanceCurrency task)
            (heldBefore placement task))
    | _ => true
  | _, _ => true

theorem readAsBefore_spec {isValidUuid : String → Bool} {t : ExchangeTransition}
    (h : readAsBefore isValidUuid t = true) : ReadAsBefore isValidUuid t.before t.event := by
  intro read handling task subscribers placement haction hproc hpoint hplacement halone
  simp only [readAsBefore, haction, hproc, hpoint, hplacement, Option.all_some, Bool.or_eq_true,
    Bool.not_eq_true', decide_eq_false_iff_not, decide_eq_true_eq] at h
  exact h.resolve_left (not_not_intro halone)

theorem toppedUp_executes :
    ((exchangeSystem anyUuid).exec initial toppedUp).isSome = true ∧
      ((exchangeSystem anyUuid).transitions initial toppedUp).all (readAsBefore anyUuid) = true ∧
        ((exchangeSystem anyUuid).transitions initial toppedUp).filterMap sizedCopy =
          [(amount (10 ^ 8 : ℕ), ((1000 * 10 ^ 8 : ℕ) : ℤ), 200 * 10 ^ 8, .finite 5)] := by
  decide +kernel

theorem sizes_mirrored_toppedUp :
    SizesMirrored ((exchangeSystem anyUuid).transitions initial toppedUp) ∧
      ((exchangeSystem anyUuid).transitions initial toppedUp).filterMap sizedCopy =
        [(amount (10 ^ 8 : ℕ), ((1000 * 10 ^ 8 : ℕ) : ℤ), 200 * 10 ^ 8, .finite 5)] := by
  obtain ⟨hexec, hchecked, hsized⟩ := toppedUp_executes
  obtain ⟨d, hexec⟩ := Option.isSome_iff_exists.mp hexec
  exact ⟨sizes_mirrored anyUuid toppedUp d
    (.of_check hexec hchecked fun _ => readAsBefore_spec), hsized⟩

end EtherTrade.MirroredSizeLaws
