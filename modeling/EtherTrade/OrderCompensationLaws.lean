import EtherTrade.OrderIdempotencyLaws
import EtherTrade.OrderSagas

/-!
# What is left of a failed order

A call that throws leaves its order committed with its funds locked, or neither, unless it
is hit at one of a few moments. They are told by what became of its balance calls and of
its commit.
-/

namespace EtherTrade.OrderCompensationLaws

open DecimalNumbers KeyedRows AccountsSchema AccountsDbInvariants OrdersSchema MatchingEngine
open InterleavedProcesses ResourceLocks StatusCodes OrdersTransactions OrdersTransactionInvariants
open BalanceMutations (BalanceParams)
open OrdersTransactionSteps OrderIdempotencyLaws BalancesService OrderSagas
open OrderFillLaws (limitOrder)

variable {isValidUuid : String → Bool} {p : ℕ} {before s s' : Services} {l l' : Process}
  {ms : List Moment} {request : ValidRequest}

/-! ### Moments -/

/-- The share of the lock amount that a moment adds to locked. -/
def moved : Moment → ℤ
  | .lockHeard => 1
  | .lockLost => 1
  | .unlocked => -1
  | _ => 0

def Commits (ms : List Moment) : Prop := .commitHeard ∈ ms ∨ .commitLost ∈ ms

instance (ms : List Moment) : Decidable (Commits ms) := inferInstanceAs (Decidable (_ ∨ _))

/-- What may have passed when a transaction has been given up. -/
def unacknowledged : List (List Moment) := [[], [.lockHeard], [.commitLost], [.lockHeard, .commitLost]]

/-- What may have passed when a call stands at a point. -/
def passed : Creating → List (List Moment)
  | .lockRefused _ _ => [[], [.lockLost]]
  | .placing _ .inserting => [[], [.lockHeard]]
  | .placing _ (.active _ _) => [[], [.lockHeard]]
  | .placing _ (.committed _) => [[.commitHeard], [.lockHeard, .commitHeard]]
  | .placing _ .rolledBack => unacknowledged
  | .awaitingUnlock _ => unacknowledged
  | .failing _ => unacknowledged ++ unacknowledged.map (· ++ [.unlocked])
  | .returned _ => [[], [.commitHeard], [.lockHeard, .commitHeard]]
  | .thrown _ => [[], [.lockLost], [.commitHeard], [.lockHeard, .commitHeard]] ++ unacknowledged ++
      unacknowledged.map (· ++ [.unlocked])
  | _ => [[]]

/-- The moments that passed tell where the money and the order are. -/
structure Accounted (before s : Services) (request : CreateOrderRequest) (ms : List Moment) :
    Prop where
  wellFormed : WellFormed s.accounts
  locked : lockedFor request s.accounts =
    lockedFor request before.accounts + (ms.map moved).sum * lockUnits request
  placed : Commits ms → Placed request before.orders.store.db s.orders.store.db
  unplaced : ¬Commits ms → s.orders.store.db.orders = before.orders.store.db.orders
  positive : ms ≠ [] → 0 < lockUnits request

/-- An order whose lock was answered has an amount to lock. -/
def Priced (request : CreateOrderRequest) : Creating → Prop
  | .placing _ _ => 0 < lockUnits request
  | _ => True

/-- The history of a call that runs alone. -/
def History (before s : Services) (l : Process) (ms : List Moment) : Prop :=
  match l with
  | .creating request progress =>
    ms ∈ passed progress ∧ Priced request.val progress ∧ Accounted before s request.val ms
  | .cancelling _ _ => True
  | _ => ms = [] ∧ s.accounts = before.accounts ∧
      s.orders.store.db.orders = before.orders.store.db.orders

theorem pair_supported (request : ValidRequest) : request.val.pair ∈ supportedPairs := by
  obtain ⟨request, hvalid⟩ := request
  by_contra hnot
  simp [validateCreateOrderRequest, hnot] at hvalid

/-- The codes of a supported pair are normal. -/
theorem normalizeCurrency_of_supported {pair : TradeSettlement.TradingSymbol}
    (hpair : pair ∈ supportedPairs) : normalizeCurrency pair.base = .ok pair.base ∧
      normalizeCurrency pair.quote = .ok pair.quote := by
  simp only [supportedPairs, List.mem_cons, List.not_mem_nil, or_false] at hpair
  rcases hpair with rfl | rfl <;> exact ⟨rfl, rfl⟩

theorem lockCurrency_normal (request : ValidRequest) :
    normalizeCurrency (lockCurrency request.val) = .ok (lockCurrency request.val) := by
  obtain ⟨hbase, hquote⟩ := normalizeCurrency_of_supported (pair_supported request)
  unfold lockCurrency
  split
  · exact hquote
  · exact hbase

/-- A balance call of an order moves its lock amount if it moves funds. -/
theorem lockedFor_serve (hdb : WellFormed s.accounts) {method : BalanceMethod} {keyPrefix : String} :
    lockedFor request.val
        (serve isValidUuid (balanceRequest method keyPrefix request.val) s.accounts).1 =
      lockedFor request.val s.accounts +
        if takesEffect isValidUuid (balanceRequest method keyPrefix request.val) s.accounts = true then
          addsToLocked method (lockUnits request.val)
        else 0 := by
  have hunits : ∀ n, (balanceRequest method keyPrefix request.val).amount.toNumeric = some n →
      n = lockUnits request.val := by
    intro n hn
    rw [lockUnits]
    exact (congrArg (fun o => Option.getD o 0) hn).symm
  have hserve := @lockedOf_serve isValidUuid (balanceRequest method keyPrefix request.val) _
    request.val.userId (lockCurrency request.val) hdb _ (lockCurrency_normal request) hunits
  rw [lockedFor, hserve]
  by_cases heffect : takesEffect isValidUuid (balanceRequest method keyPrefix request.val)
      s.accounts = true
  · rw [if_pos ⟨heffect, rfl⟩, if_pos heffect]
    rfl
  · rw [if_neg fun h => heffect h.1, if_neg heffect]
    rfl

theorem lockUnits_pos {method : BalanceMethod} {keyPrefix : String} {params : BalanceParams}
    (h : validateRequest isValidUuid (balanceRequest method keyPrefix request.val) = .ok params) :
    0 < lockUnits request.val := by
  obtain ⟨-, -, hamount, -⟩ := validateRequest_eq_ok h
  have hunits : lockUnits request.val = params.amount.units :=
    congrArg (fun o => Option.getD o 0) hamount
  rw [hunits]
  exact params.amount.positive

/-- Before any moment, the accounts and the rows are as they were. -/
theorem accounted_nil {request : CreateOrderRequest} (hdb : WellFormed before.accounts)
    (haccounts : s.accounts = before.accounts)
    (horders : s.orders.store.db.orders = before.orders.store.db.orders) :
    Accounted before s request [] where
  wellFormed := haccounts ▸ hdb
  locked := by simp [haccounts]
  placed := by rintro (hmem | hmem) <;> cases hmem
  unplaced _ := horders
  positive hne := absurd rfl hne

/-! ### Steps -/

/-- A step that commits nothing and leaves the accounts alone. -/
theorem Accounted.of_eq (h : Accounted before s request.val ms) (haccounts : s'.accounts = s.accounts)
    (horders : s'.orders.store.db.orders = s.orders.store.db.orders) :
    Accounted before s' request.val ms := by
  have hfind : s'.orders.store.db.findById = s.orders.store.db.findById := by
    funext orderId
    rw [OrdersDb.findById, horders, OrdersDb.findById]
  refine ⟨haccounts ▸ h.wellFormed, by rw [haccounts, h.locked], fun hc => ?_, fun hc => ?_,
    h.positive⟩
  · obtain ⟨order, hnone, hrow, hkey⟩ := h.placed hc
    exact ⟨order, hnone, by rw [hfind, hrow], hkey⟩
  · rw [horders, h.unplaced hc]

/-- A balance call that is served. -/
theorem Accounted.serve (h : Accounted before s request.val ms) {method : BalanceMethod}
    {keyPrefix : String} {m : Moment} (hmoved : moved m * lockUnits request.val =
      addsToLocked method (lockUnits request.val)) (hcommits : m ≠ .commitHeard ∧ m ≠ .commitLost)
    (haccounts : s'.accounts =
      (serve isValidUuid (balanceRequest method keyPrefix request.val) s.accounts).1)
    (horders : s'.orders.store.db.orders = s.orders.store.db.orders) :
    Accounted before s' request.val (ms ++
      (if takesEffect isValidUuid (balanceRequest method keyPrefix request.val) s.accounts = true then
        [m] else [])) := by
  cases heffect : takesEffect isValidUuid (balanceRequest method keyPrefix request.val) s.accounts with
  | false =>
    rw [serve_of_not_takesEffect heffect] at haccounts
    simpa using h.of_eq haccounts horders
  | true =>
    have hlocked := @lockedFor_serve isValidUuid s request h.wellFormed method keyPrefix
    rw [if_pos heffect, h.locked] at hlocked
    have hsame : Commits (ms ++ [m]) ↔ Commits ms := by
      simp [Commits, hcommits.1.symm, hcommits.2.symm]
    have hstill : Accounted before ⟨s'.orders, s.accounts⟩ request.val ms := h.of_eq rfl horders
    rw [if_pos rfl]
    refine ⟨?_, ?_, fun hc => hstill.placed (hsame.mp hc), fun hc => hstill.unplaced (mt hsame.mpr hc),
      fun _ => ?_⟩
    · rw [haccounts]
      exact wellFormed_serve h.wellFormed
    · rw [haccounts, hlocked, List.map_append, List.sum_append, add_mul, List.map_singleton,
        List.sum_singleton, hmoved, add_assoc]
    · obtain ⟨params, -, hparams, -⟩ := serve_of_takesEffect heffect
      exact lockUnits_pos hparams

/-- A commit of the order. -/
theorem Accounted.commit (h : Accounted before s request.val ms) (hnot : ¬Commits ms)
    (hpos : 0 < lockUnits request.val) {m : Moment} (hm : m = .commitHeard ∨ m = .commitLost) {w : UnitOfWork} {recordId : Uuid}
    (hholds : CallHolds p s.orders (.creating request (.placing recordId (.active w .committing)))) :
    Accounted before ⟨commit p s.orders w.rows w.outboxList, s.accounts⟩ request.val (ms ++ [m]) := by
  have hmoved : moved m = 0 := by rcases hm with rfl | rfl <;> rfl
  have hcommits : Commits (ms ++ [m]) := by rcases hm with rfl | rfl <;> simp [Commits]
  refine ⟨h.wellFormed, by simp [h.locked, hmoved], fun _ => ?_, fun hc => absurd hcommits hc,
    fun _ => hpos⟩
  obtain ⟨hw, hkey, hrows⟩ := hholds
  obtain ⟨row, hrow⟩ := Option.isSome_iff_exists.mp hw.own
  have hrowKey := hrows _ row hrow
  rw [if_pos rfl, hkey] at hrowKey
  obtain ⟨huser, hidempotency⟩ := Prod.mk.inj hrowKey
  have hid := (lookup_mem hrow).2
  refine ⟨row, ?_, ?_, huser, hidempotency⟩
  · have hfresh := hw.fresh
    rw [hid, OrdersDb.findById, ← h.unplaced hnot]
    exact hfresh
  · rw [hid]
    exact findById_install.trans (by rw [hrow, Option.some_or])

/-- A step that is none of the moments. -/
private theorem history_quiet {o : OrdersTransactions.Shared} {progress : Creating}
    {seen : Option Moment} (ha : Accounted before s request.val ms) (hseen : seen = none)
    (hpassed : ms ∈ passed progress) (hpriced : Priced request.val progress)
    (horders : o.store.db.orders = s.orders.store.db.orders) :
    History before ⟨o, s.accounts⟩ (.creating request progress) (ms ++ seen.toList) := by
  rw [hseen, Option.toList_none, List.append_nil]
  exact ⟨hpassed, hpriced, ha.of_eq rfl horders⟩

theorem history_active {o : OrdersTransactions.Shared} {recordId : Uuid} {w : UnitOfWork}
    {point : Point} {placing : Placing} {action : OrdersTransactions.Action}
    (hms : ms ∈ passed (.placing recordId (.active w point)))
    (hpos : 0 < lockUnits request.val) (ha : Accounted before s request.val ms)
    (hholds : CallHolds p s.orders (.creating request (.placing recordId (.active w point))))
    (h : activeStep p s.orders w point action = some (o, placing)) :
    History before ⟨o, s.accounts⟩ (.creating request (.placing recordId placing))
      (ms ++ (moment isValidUuid s (.creating request (.placing recordId (.active w point)))
        (.orders action)).toList) := by
  have hnot : ¬Commits ms := by
    simp only [passed, List.mem_cons, List.not_mem_nil, or_false] at hms
    rcases hms with rfl | rfl <;> decide
  by_cases hcommitting : point = .committing
  · subst hcommitting
    cases action with
    | statement =>
      obtain ⟨rfl, rfl⟩ := Prod.mk.inj (Option.some.inj h)
      refine ⟨?_, hpos, ha.commit hnot hpos (Or.inl rfl) hholds⟩
      simp only [passed, List.mem_cons, List.not_mem_nil, or_false] at hms ⊢
      rcases hms with rfl | rfl <;> simp [moment]
    | commitUnacknowledged =>
      obtain ⟨rfl, rfl⟩ := Prod.mk.inj (Option.some.inj h)
      refine ⟨?_, hpos, ha.commit hnot hpos (Or.inr rfl) hholds⟩
      simp only [passed, unacknowledged, List.mem_cons, List.not_mem_nil, or_false] at hms ⊢
      rcases hms with rfl | rfl <;> simp [moment]
    | abort =>
      obtain ⟨rfl, rfl⟩ := Prod.mk.inj (Option.some.inj h)
      refine history_quiet ha rfl ?_ hpos rfl
      simp only [passed, unacknowledged, List.mem_cons, List.not_mem_nil, or_false] at hms ⊢
      tauto
    | _ => cases h
  · have hseen : moment isValidUuid s (.creating request (.placing recordId (.active w point)))
        (.orders action) = none := by
      cases point <;> first | rfl | exact absurd rfl hcommitting
    cases activeStep_cases h with
    | quiet hdb => exact history_quiet ha hseen hms hpos (congrArg OrdersDb.orders hdb)
    | matched => exact history_quiet ha hseen hms hpos rfl
    | unmatched =>
      obtain ⟨next, rfl, -⟩ := activeStep_updating h
      exact history_quiet ha hseen hms hpos rfl
    | finished => exact history_quiet ha hseen hms hpos rfl
    | committed => exact absurd rfl hcommitting
    | aborted =>
      refine history_quiet ha hseen ?_ hpos rfl
      simp only [passed, unacknowledged, List.mem_cons, List.not_mem_nil, or_false] at hms ⊢
      tauto

theorem history_creating {o : OrdersTransactions.Shared} {progress progress' : Creating}
    {action : OrdersTransactions.Action} (hms : ms ∈ passed progress)
    (hpriced : Priced request.val progress) (ha : Accounted before s request.val ms)
    (hholds : CallHolds p s.orders (.creating request progress)) (hreply : ∀ r, action ≠ .reply r)
    (h : creatingStep p s.orders request.val progress action = some (o, progress')) :
    History before ⟨o, s.accounts⟩ (.creating request progress')
      (ms ++ (moment isValidUuid s (.creating request progress) (.orders action)).toList) := by
  cases progress with
  | placing recordId placing =>
    cases placing with
    | active w point =>
      have hactive : (activeStep p s.orders w point action).map
          (fun r => (r.1, Creating.placing recordId r.2)) = some (o, progress') := h
      obtain ⟨⟨o', placing'⟩, hstep, heq⟩ := Option.map_eq_some_iff.mp hactive
      obtain ⟨rfl, rfl⟩ := Prod.mk.inj heq
      exact history_active hms hpriced ha hholds hstep
    | inserting =>
      have hsubset : passed (.placing recordId .inserting) ⊆ unacknowledged := by
        simp [passed, unacknowledged]
      cases action with
      | insert newId =>
        simp only [creatingStep, placingStep] at h
        split at h
        · cases h
          exact history_quiet ha rfl (hsubset hms) hpriced rfl
        · split at h
          · split at h <;> cases h
            · exact history_quiet ha rfl (hsubset hms) hpriced rfl
            · exact history_quiet ha rfl hms hpriced rfl
          · cases h
      | abort =>
        cases h
        exact history_quiet ha rfl (hsubset hms) hpriced rfl
      | _ => cases h
    | committed order =>
      have hsubset : passed (.placing recordId (.committed order)) ⊆
          [[], [.commitHeard], [.lockHeard, .commitHeard]] := by simp [passed]
      cases action with
      | statement =>
        cases h
        exact history_quiet ha rfl (hsubset hms) trivial rfl
      | abort =>
        cases h
        refine history_quiet ha rfl ?_ trivial rfl
        simp only [passed, List.mem_cons, List.mem_append, List.not_mem_nil, or_false] at hms ⊢
        tauto
      | _ => cases h
    | rolledBack =>
      cases action with
      | statement =>
        cases h
        exact history_quiet ha rfl hms trivial rfl
      | _ => cases h
  | checking =>
    obtain rfl := List.mem_singleton.mp hms
    cases action with
    | statement =>
      simp only [creatingStep] at h
      split at h <;> cases h
      · exact history_quiet ha rfl hms trivial rfl
      · refine history_quiet ha rfl ?_ ?_ rfl <;> unfold resolveRecord
        · split
          · simp [passed]
          · simp [passed]
          · split <;> simp [passed]
        · split
          · trivial
          · trivial
          · split <;> trivial
    | abort =>
      cases h
      exact history_quiet ha rfl (by simp [passed]) trivial rfl
    | _ => cases h
  | recording =>
    obtain rfl := List.mem_singleton.mp hms
    cases action with
    | insert recordId =>
      simp only [creatingStep] at h
      split at h <;> cases h
      · exact history_quiet ha rfl (by simp [passed]) trivial rfl
      · exact history_quiet ha rfl (by simp [passed]) trivial rfl
    | abort =>
      cases h
      exact history_quiet ha rfl (by simp [passed]) trivial rfl
    | _ => cases h
  | locking recordId =>
    cases action with
    | statement =>
      cases h
      exact history_quiet ha rfl hms trivial rfl
    | _ => cases h
  | awaitingLock recordId =>
    cases action with
    | reply r => exact absurd rfl (hreply r)
    | _ => cases h
  | lockRefused recordId message =>
    have hsubset : passed (.lockRefused recordId message) ⊆ passed (.thrown .infrastructure) := by
      simp [passed]
    cases action with
    | statement =>
      cases h
      exact history_quiet ha rfl (hsubset hms) trivial rfl
    | abort =>
      cases h
      exact history_quiet ha rfl (hsubset hms) trivial rfl
    | _ => cases h
  | awaitingUnlock recordId =>
    cases action with
    | reply r => exact absurd rfl (hreply r)
    | _ => cases h
  | failing recordId =>
    have hthrown : ms ∈ passed (.thrown .infrastructure) := by
      simp only [passed, List.mem_append] at hms ⊢
      tauto
    cases action with
    | statement =>
      cases h
      exact history_quiet ha rfl hthrown trivial rfl
    | abort =>
      cases h
      exact history_quiet ha rfl hthrown trivial rfl
    | _ => cases h
  | returned item => cases action <;> cases h
  | thrown failure => cases action <;> cases h

theorem validateRequest_of_serve {balance : BalanceRequest} {db : AccountsDb} {account : Account}
    (h : (serve isValidUuid balance db).2 = .ok account) :
    ∃ params, validateRequest isValidUuid balance = .ok params := by
  rw [serve_eq_mutate, mutate] at h
  split at h
  · cases h
  · next params hparams => exact ⟨params, hparams⟩

/-- What a balance call does to the accounts and to the reply. -/
theorem deliver_cases {delivery : Delivery} {message : String} {balance : BalanceRequest}
    {db : AccountsDb} :
    (deliver isValidUuid delivery message balance db).1 =
        (if delivery = .undelivered then db else (serve isValidUuid balance db).1) ∧
      (delivery ≠ .answered → (deliver isValidUuid delivery message balance db).2 = .error message) ∧
        (delivery = .answered → takesEffect isValidUuid balance db = true →
          (deliver isValidUuid delivery message balance db).2 = .ok) ∧
          ((deliver isValidUuid delivery message balance db).2 = .ok →
            ∃ params, validateRequest isValidUuid balance = .ok params) := by
  cases delivery with
  | answered =>
    refine ⟨?_, fun h => absurd rfl h, fun _ heffect => ?_, fun hok => ?_⟩
    · simp only [deliver]
      split <;> rfl
    · obtain ⟨params, account, -, -, -, hserve⟩ := serve_of_takesEffect heffect
      simp [deliver, hserve]
    · simp only [deliver] at hok
      split at hok
      · next hserve => exact validateRequest_of_serve hserve
      · cases hok
  | unanswered =>
    exact ⟨rfl, fun _ => rfl, fun h => absurd h (by decide), BalanceReply.noConfusion⟩
  | undelivered =>
    exact ⟨rfl, fun _ => rfl, fun h => absurd h (by decide), BalanceReply.noConfusion⟩

/-- A balance call is a step of the process, with the reply that the service gives. -/
theorem exists_reply {delivery : Delivery} {message : String} {balance : BalanceRequest}
    (hpending : pendingRequest l = some balance)
    (h : OrderSagas.step isValidUuid p s l (.balanceCall delivery message) = some (s', l')) :
    OrdersTransactions.step p s.orders l
        (.reply (deliver isValidUuid delivery message balance s.accounts).2) = some (s'.orders, l') ∧
      s'.accounts = (deliver isValidUuid delivery message balance s.accounts).1 := by
  rw [OrderSagas.step, hpending, Option.bind_some] at h
  obtain ⟨⟨o, l''⟩, hstep, heq⟩ := Option.map_eq_some_iff.mp h
  obtain ⟨rfl, rfl⟩ := Prod.mk.inj heq
  exact ⟨hstep, rfl⟩

theorem history_lock {recordId : Uuid} {delivery : Delivery} {message : String}
    (hms : ms ∈ passed (.awaitingLock recordId)) (ha : Accounted before s request.val ms)
    (h : OrderSagas.step isValidUuid p s (.creating request (.awaitingLock recordId))
      (.balanceCall delivery message) = some (s', l')) :
    History before s' l' (ms ++ (moment isValidUuid s (.creating request (.awaitingLock recordId))
      (.balanceCall delivery message)).toList) := by
  obtain rfl := List.mem_singleton.mp hms
  obtain ⟨hstep, hafter⟩ := exists_reply rfl h
  obtain ⟨haccounts, herror, hok, hvalid⟩ := @deliver_cases isValidUuid delivery message
    (balanceRequest .lockBalance "lock:" request.val) s.accounts
  rw [← hafter] at haccounts
  have hreply : s'.orders = s.orders ∧ ∃ progress, l' = .creating request progress ∧
      ((deliver isValidUuid delivery message (balanceRequest .lockBalance "lock:" request.val)
          s.accounts).2 = .ok ∧ progress = .placing recordId .inserting ∨
        (deliver isValidUuid delivery message (balanceRequest .lockBalance "lock:" request.val)
          s.accounts).2 ≠ .ok ∧ ∃ text, progress = .lockRefused recordId text) := by
    cases hr : (deliver isValidUuid delivery message
        (balanceRequest .lockBalance "lock:" request.val) s.accounts).2 with
    | ok =>
      rw [hr] at hstep
      obtain ⟨ho, hl⟩ := Prod.mk.inj (Option.some.inj hstep)
      exact ⟨ho.symm, _, hl.symm, Or.inl ⟨rfl, rfl⟩⟩
    | error text =>
      rw [hr] at hstep
      obtain ⟨ho, hl⟩ := Prod.mk.inj (Option.some.inj hstep)
      exact ⟨ho.symm, _, hl.symm, Or.inr ⟨BalanceReply.noConfusion, _, rfl⟩⟩
  obtain ⟨horders, progress, rfl, hprogress⟩ := hreply
  have hrows := congrArg (fun o => o.store.db.orders) horders
  have hempty : [] ∈ passed progress := by
    rcases hprogress with ⟨-, rfl⟩ | ⟨-, text, rfl⟩ <;> simp [passed]
  have hpriced : Priced request.val progress := by
    rcases hprogress with ⟨hr, rfl⟩ | ⟨-, text, rfl⟩
    · obtain ⟨params, hparams⟩ := hvalid hr
      exact lockUnits_pos hparams
    · trivial
  cases delivery with
  | undelivered =>
    rw [if_pos rfl] at haccounts
    have hseen : moment isValidUuid s (.creating request (.awaitingLock recordId))
        (.balanceCall .undelivered message) = none := by
      simp only [moment]
      split <;> rfl
    rw [hseen]
    exact ⟨hempty, hpriced, ha.of_eq haccounts hrows⟩
  | unanswered =>
    rw [if_neg (by decide)] at haccounts
    have hseen : (moment isValidUuid s (.creating request (.awaitingLock recordId))
        (.balanceCall .unanswered message)).toList =
          if takesEffect isValidUuid (balanceRequest .lockBalance "lock:" request.val)
            s.accounts = true then [.lockLost] else [] := by
      simp only [moment]
      split <;> rfl
    rw [hseen]
    refine ⟨?_, hpriced, ha.serve (one_mul _) (by decide) haccounts hrows⟩
    rcases hprogress with ⟨hr, -⟩ | ⟨-, text, rfl⟩
    · rw [herror (by decide)] at hr
      cases hr
    · split <;> simp [passed]
  | answered =>
    rw [if_neg (by decide)] at haccounts
    have hseen : (moment isValidUuid s (.creating request (.awaitingLock recordId))
        (.balanceCall .answered message)).toList =
          if takesEffect isValidUuid (balanceRequest .lockBalance "lock:" request.val)
            s.accounts = true then [.lockHeard] else [] := by
      simp only [moment]
      split <;> rfl
    rw [hseen]
    refine ⟨?_, hpriced, ha.serve (one_mul _) (by decide) haccounts hrows⟩
    split
    · next heffect =>
      rcases hprogress with ⟨-, rfl⟩ | ⟨hr, -⟩
      · simp [passed]
      · exact absurd (hok rfl heffect) hr
    · exact hempty

theorem history_unlock {recordId : Uuid} {delivery : Delivery} {message : String}
    (hms : ms ∈ passed (.awaitingUnlock recordId)) (ha : Accounted before s request.val ms)
    (h : OrderSagas.step isValidUuid p s (.creating request (.awaitingUnlock recordId))
      (.balanceCall delivery message) = some (s', l')) :
    History before s' l' (ms ++ (moment isValidUuid s (.creating request (.awaitingUnlock recordId))
      (.balanceCall delivery message)).toList) := by
  obtain ⟨hstep, hafter⟩ := exists_reply rfl h
  obtain ⟨haccounts, -⟩ := @deliver_cases isValidUuid delivery message
    (balanceRequest .unlockBalance "unlock:" request.val) s.accounts
  rw [← hafter] at haccounts
  obtain ⟨horders, rfl⟩ : s.orders = s'.orders ∧ Process.creating request (.failing recordId) = l' :=
    Prod.mk.inj (Option.some.inj hstep)
  have hrows := congrArg (fun o => o.store.db.orders) horders.symm
  have hfailing : ms ∈ passed (.failing recordId) := List.mem_append_left _ hms
  by_cases hdelivery : delivery = .undelivered
  · rw [if_pos hdelivery] at haccounts
    have hseen : moment isValidUuid s (.creating request (.awaitingUnlock recordId))
        (.balanceCall delivery message) = none := by
      simp [moment, hdelivery]
    rw [hseen, Option.toList_none, List.append_nil]
    exact ⟨hfailing, trivial, ha.of_eq haccounts hrows⟩
  · rw [if_neg hdelivery] at haccounts
    have hseen : (moment isValidUuid s (.creating request (.awaitingUnlock recordId))
        (.balanceCall delivery message)).toList =
          if takesEffect isValidUuid (balanceRequest .unlockBalance "unlock:" request.val)
            s.accounts = true then [.unlocked] else [] := by
      simp only [moment, ne_eq, hdelivery, not_false_eq_true, true_and]
      split <;> rfl
    rw [hseen]
    refine ⟨?_, trivial, ha.serve (neg_one_mul _) (by decide) haccounts hrows⟩
    split
    · exact List.mem_append_right _ (List.mem_map_of_mem hms)
    · rwa [List.append_nil]

theorem history_step {action : OrderSagas.Action} (hdb : WellFormed before.accounts)
    (hh : History before s l ms)
    (hholds : CallHolds p s.orders l)
    (h : OrderSagas.step isValidUuid p s l action = some (s', l')) :
    History before s' l' (ms ++ (moment isValidUuid s l action).toList) := by
  cases action with
  | balanceCall delivery message =>
    cases l with
    | creating request progress =>
      cases progress with
      | awaitingLock recordId => exact history_lock hh.1 hh.2.2 h
      | awaitingUnlock recordId => exact history_unlock hh.1 hh.2.2 h
      | _ => cases h
    | cancelling request progress =>
      cases progress with
      | awaitingUnlock order =>
        obtain ⟨hstep, -⟩ := exists_reply rfl h
        obtain ⟨-, rfl⟩ : s.orders = s'.orders ∧ Process.cancelling request _ = l' :=
          Prod.mk.inj (Option.some.inj hstep)
        trivial
      | _ => cases h
    | _ => cases h
  | orders action =>
    by_cases hreply : ∃ r, action = .reply r
    · obtain ⟨r, rfl⟩ := hreply
      cases h
    · have hmap : (OrdersTransactions.step p s.orders l action).map
          (fun r => ((⟨r.1, s.accounts⟩ : Services), r.2)) = some (s', l') := by
        cases action <;> first | exact h | exact absurd ⟨_, rfl⟩ hreply
      obtain ⟨⟨o, l''⟩, hstep, heq⟩ := Option.map_eq_some_iff.mp hmap
      obtain ⟨rfl, rfl⟩ := Prod.mk.inj heq
      cases l with
      | idle =>
        obtain ⟨rfl, haccounts, horders⟩ := hh
        cases action with
        | createOrder request =>
          simp only [OrdersTransactions.step] at hstep
          split at hstep
          · obtain ⟨rfl, rfl⟩ := Prod.mk.inj (Option.some.inj hstep)
            exact ⟨rfl, haccounts, horders⟩
          · obtain ⟨rfl, rfl⟩ := Prod.mk.inj (Option.some.inj hstep)
            exact ⟨List.mem_singleton.mpr rfl, trivial, accounted_nil hdb haccounts horders⟩
        | cancelOrder request =>
          obtain ⟨rfl, rfl⟩ := Prod.mk.inj (Option.some.inj hstep)
          trivial
        | passTime ms =>
          obtain ⟨rfl, rfl⟩ := Prod.mk.inj (Option.some.inj hstep)
          exact ⟨rfl, haccounts, horders⟩
        | _ => cases hstep
      | refused exception => cases action <;> cases hstep
      | creating request progress =>
        obtain ⟨⟨o', progress'⟩, hcreating, heq⟩ := Option.map_eq_some_iff.mp hstep
        obtain ⟨rfl, rfl⟩ := Prod.mk.inj heq
        exact history_creating hh.1 hh.2.1 hh.2.2 hholds (fun r hr => hreply ⟨r, hr⟩) hcreating
      | cancelling request progress =>
        obtain ⟨⟨o', progress'⟩, hcancelling, heq⟩ := Option.map_eq_some_iff.mp hstep
        obtain ⟨rfl, rfl⟩ := Prod.mk.inj heq
        trivial

/-- A step of the services is one of the process in the orders service: its own, or a reply. -/
theorem exists_step {action : OrderSagas.Action}
    (h : OrderSagas.step isValidUuid p s l action = some (s', l')) :
    ∃ own, OrdersTransactions.step p s.orders l own = some (s'.orders, l') ∧
      (action = .orders own ∨ ∃ r, own = .reply r) := by
  cases action with
  | balanceCall delivery message =>
    obtain ⟨balance, hpending, -⟩ := Option.bind_eq_some_iff.mp h
    exact ⟨_, (exists_reply hpending h).1, Or.inr ⟨_, rfl⟩⟩
  | orders action =>
    refine ⟨action, ?_, Or.inl rfl⟩
    cases action <;> first
      | (obtain ⟨⟨o, k⟩, hstep, heq⟩ := Option.map_eq_some_iff.mp h
         obtain ⟨rfl, rfl⟩ := Prod.mk.inj heq
         exact hstep)
      | cases h

/-! ### Whole calls -/

/-- No moment has left funds locked without an order, or an order without its funds: a lock
that moved funds was heard of; if no commit followed, an unlock did; a commit follows such a
lock; and a commit whose acknowledgement was lost was not followed by an unlock. -/
structure Safe (ms : List Moment) : Prop where
  heard : .lockLost ∉ ms
  released : .lockHeard ∈ ms → .commitHeard ∉ ms → .commitLost ∉ ms → .unlocked ∈ ms
  backed : .commitHeard ∈ ms ∨ .commitLost ∈ ms → .lockHeard ∈ ms
  kept : .commitLost ∈ ms → .unlocked ∉ ms

theorem safe_iff : Safe ms ↔ .lockLost ∉ ms ∧
    (.lockHeard ∈ ms → .commitHeard ∉ ms → .commitLost ∉ ms → .unlocked ∈ ms) ∧
    (.commitHeard ∈ ms ∨ .commitLost ∈ ms → .lockHeard ∈ ms) ∧
    (.commitLost ∈ ms → .unlocked ∉ ms) :=
  ⟨fun h => ⟨h.heard, h.released, h.backed, h.kept⟩, fun ⟨h₁, h₂, h₃, h₄⟩ => ⟨h₁, h₂, h₃, h₄⟩⟩

instance (ms : List Moment) : Decidable (Safe ms) := decidable_of_iff' _ safe_iff

/-- The moments that a call that has thrown can have passed, judged one by one. -/
theorem safe_of_passed (failure : Failure) : ∀ ms ∈ passed (.thrown failure),
    (Safe ms ↔ Commits ms ∧ (ms.map moved).sum = 1 ∨ ¬Commits ms ∧ (ms.map moved).sum ≤ 0) := by
  simp only [passed]
  decide

/-- The judgement on the moments is one on the stores. -/
theorem Accounted.compensated_iff_commits {request : CreateOrderRequest} (h : Accounted before s request ms) :
    Compensated request before s ↔
      Commits ms ∧ (ms.map moved).sum = 1 ∨ ¬Commits ms ∧ (ms.map moved).sum ≤ 0 := by
  have hplaced : Placed request before.orders.store.db s.orders.store.db ↔ Commits ms := by
    refine ⟨fun hp => by_contra fun hnot => ?_, h.placed⟩
    obtain ⟨order, hnone, hrow, -⟩ := hp
    rw [OrdersDb.findById, h.unplaced hnot] at hrow
    rw [OrdersDb.findById, hrow] at hnone
    cases hnone
  rw [Compensated, hplaced, h.locked]
  by_cases hempty : ms = []
  · subst hempty
    simp [Commits]
  · have hpos := h.positive hempty
    refine or_congr (and_congr_right fun _ => ?_) (and_congr_right fun _ => ?_)
    · rw [add_right_inj, mul_eq_right₀ hpos.ne']
    · rw [add_le_iff_nonpos_right, Int.mul_nonpos_iff]
      omega

/-- A call that has thrown, alone from its start, is compensated if and only if none of its
moments has stranded funds or an order. -/
theorem compensated_iff {request : CreateOrderRequest} (hdb : WellFormed s.accounts)
    {actions : List OrderSagas.Action}
    (h : (sagaSystem isValidUuid).runAlone p s .idle actions = some (s', l'))
    (hthrown : Thrown request l') :
    Compensated request s s' ↔ Safe (moments isValidUuid p s .idle actions) := by
  have hstart : History s s .idle [] ∧ CallHolds p s.orders .idle := ⟨⟨rfl, rfl, rfl⟩, trivial⟩
  obtain ⟨hhistory, -⟩ := @System.runAlone_invariant _ _ _ (sagaSystem isValidUuid) p s s' .idle l' _
    (moment isValidUuid) (fun d l ms => History s d l ms ∧ CallHolds p d.orders l)
    (fun c l action c' k ms hc hstep => ⟨history_step hdb hc.1 hc.2 hstep, by
      obtain ⟨_, hown, -⟩ := exists_step hstep
      exact callHolds_own hc.2 hown⟩) [] hstart actions h
  rw [List.nil_append] at hhistory
  cases l' with
  | refused exception =>
    obtain ⟨hms, haccounts, horders⟩ := hhistory
    rw [moments, hms, (accounted_nil hdb haccounts horders).compensated_iff_commits]
    decide
  | creating valid progress =>
    cases progress with
    | thrown failure =>
      obtain rfl : valid.val = request := hthrown
      obtain ⟨hpassed, -, haccounted⟩ := hhistory
      rw [haccounted.compensated_iff_commits, moments, safe_of_passed failure _ hpassed]
    | _ => exact hthrown.elim
  | _ => exact hthrown.elim

/-! ### A transaction that fails, and a reply that is lost -/

def buyer : Uuid := "018f3c1e-6b1a-7c3d-9e2f-4a5b6c7d8e9f"

def buyOrder : CreateOrderRequest := limitOrder buyer .buy 100 1

/-- The buyer has a thousand coins available, and nothing else has happened. -/
def funded : Services where
  orders := initial.shared
  accounts := ⟨[⟨"account", buyer, .usdt, 1000 * 10 ^ 8, 0⟩], [], []⟩

theorem wellFormed_funded : WellFormed funded.accounts where
  ids := by unfold KeyUnique; decide
  owners := by unfold KeyUnique; decide
  idempotencyKeys := by decide
  eventIds := by unfold KeyUnique; decide
  ledgerOwners := by decide

/-- The buyer's id is the only text that is taken for one. -/
def knowsBuyer (userId : String) : Bool := userId == buyer

/-- The call up to its balance call. -/
def beforeLock : List OrderSagas.Action :=
  [.orders (.createOrder buyOrder), .orders .statement, .orders (.insert "record"),
    .orders .statement]

/-- The transaction fails at its first statement, and the lock is undone. -/
def undone : List OrderSagas.Action :=
  beforeLock ++ [.balanceCall .answered "", .orders .abort, .orders .statement,
    .balanceCall .answered "", .orders .statement]

theorem valid_buyOrder : validateCreateOrderRequest buyOrder = none := by decide +kernel

theorem undone_throws : ((sagaSystem knowsBuyer).runAlone 0 funded .idle undone).map Prod.snd =
    some (.creating ⟨buyOrder, valid_buyOrder⟩ (.thrown .infrastructure)) := by
  decide +kernel

theorem compensated_undone : ∃ s' l',
    (sagaSystem knowsBuyer).runAlone 0 funded .idle undone = some (s', l') ∧
      Thrown buyOrder l' ∧ Compensated buyOrder funded s' := by
  obtain ⟨⟨s', l'⟩, hrun, hended⟩ := Option.map_eq_some_iff.mp undone_throws
  have hthrown : Thrown buyOrder l' := by
    rw [← show _ = l' from hended.symm]
    rfl
  exact ⟨s', l', hrun, hthrown, (compensated_iff wellFormed_funded hrun hthrown).mpr (by decide +kernel)⟩

/-- The lock moves the funds, and its reply is lost. -/
def unheard : List OrderSagas.Action :=
  beforeLock ++ [.balanceCall .unanswered "14 UNAVAILABLE: Connection dropped", .orders .statement]

/-- The buyer's hundred coins stay locked for an order that is not there. -/
theorem stranded_unheard : ¬∀ isValidUuid p s s' l' request actions, WellFormed s.accounts →
    (sagaSystem isValidUuid).runAlone p s .idle actions = some (s', l') → Thrown request l' →
      Compensated request s s' := by
  intro h
  have hended : ((sagaSystem knowsBuyer).runAlone 0 funded .idle unheard).map Prod.snd =
      some (.creating ⟨buyOrder, valid_buyOrder⟩ (.thrown (.rpc
        ⟨HttpStatus.paymentRequired, "14 UNAVAILABLE: Connection dropped"⟩))) := by decide +kernel
  obtain ⟨⟨s', l'⟩, hrun, hl⟩ := Option.map_eq_some_iff.mp hended
  have hleft : ((sagaSystem knowsBuyer).runAlone 0 funded .idle unheard).map (fun r =>
      (r.1.orders.store.db.orders, lockedFor buyOrder r.1.accounts)) = some ([], 10 ^ 10) := by
    decide +kernel
  rw [hrun] at hleft
  obtain ⟨horders, hlocked⟩ := Prod.mk.inj (Option.some.inj hleft)
  have hthrown : Thrown buyOrder l' := by
    rw [← show _ = l' from hl.symm]
    rfl
  rcases h _ _ _ _ _ _ _ wellFormed_funded hrun hthrown with ⟨⟨order, -, hrow, -⟩, -⟩ | ⟨-, hle⟩
  · rw [OrdersDb.findById, horders] at hrow
    cases hrow
  · rw [hlocked] at hle
    exact absurd hle (by decide +kernel)

end EtherTrade.OrderCompensationLaws
