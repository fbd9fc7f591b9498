import EtherTrade.ExchangeRuns
import EtherTrade.IdempotencyKeyIsolation
import EtherTrade.ReservedFunds

/-!
# What is locked, over calls and settlements

How a deposit, a balance call and a delivery change what is locked for users, the rows of
the ledger and the processed events.
-/

namespace EtherTrade.LockedFunds

open DecimalNumbers KeyedRows AccountsSchema OrdersSchema AccountsDbInvariants
open BalanceMutations BalanceMutationCorrectness BalancesService SequentialRequests
open IdempotencyKeyIsolation OrderReservations ReservedFunds ExchangeRuns
open OrdersTransactions (BalanceMethod BalanceRequest)
open TradeSettlement (KafkaBatchConsumerPayload DomainEventEnvelope Participant acceptMessage
  tradeExecuted messageAction)
open TradeSettlementCorrectness (Figures figures Settlement settledDb legOrder
  findLedger_settledDb isEventProcessed_settledDb wellFormed_settledDb)

variable {isValidUuid : String → Bool} {eventIds : ℕ → Uuid} {request : BalanceRequest}
  {params : BalanceParams} {op : BalanceOperation} {newId : Uuid} {db db' : AccountsDb}
  {userId : Uuid} {currency : Currency}

/-! ### Balance mutations -/

/-- What a mutation of a type under a key leaves behind, whatever came of it. -/
structure Mutated (type : LedgerTransactionType) (key : String) (db db' : AccountsDb) : Prop where
  wellFormed : WellFormed db'
  processedEvents_eq : db'.processedEvents = db.processedEvents
  ledger : ∀ t ∈ db'.ledgerTransactions, t ∈ db.ledgerTransactions ∨
    t.type = type ∧ t.idempotencyKey = some key

theorem mutated_refl {type : LedgerTransactionType} {key : String} (hdb : WellFormed db) :
    Mutated type key db db := ⟨hdb, rfl, fun _ ht => Or.inl ht⟩

theorem mutated_commit {account : Account} {prepared : AccountsDb}
    (hkey : db.findLedgerByIdempotencyKey params.idempotencyKey = none)
    (h : Prepared op.mutation params db account prepared) (hdb : WellFormed db) :
    Mutated op.mutation.expectedType params.idempotencyKey db
      (op.mutation.commit params account prepared) := by
  refine ⟨wellFormed_commit hkey h hdb, h.processedEvents_eq, fun t ht => ?_⟩
  simp only [BalanceMutation.commit, AccountsDb.insertLedgerTransactions, AccountsDb.install,
    h.ledgerTransactions_eq] at ht
  rcases List.mem_append.mp ht with hold | hnew
  · exact Or.inl hold
  · obtain rfl := List.mem_singleton.mp hnew
    exact Or.inr ⟨rfl, rfl⟩

theorem mutated_mutateBalance (hdb : WellFormed db) :
    Mutated op.mutation.expectedType params.idempotencyKey db
      (mutateBalance op.mutation newId params db).1 := by
  have hresult : mutateBalance op.mutation newId params db =
      ((mutateBalance op.mutation newId params db).1, _) := rfl
  rcases mutateBalance_cases hresult with ⟨hsame, -⟩ | ⟨account, prepared, hkey, hprepared, hsame, -⟩
  · rw [hsame]
    exact mutated_refl hdb
  · rw [hsame]
    exact mutated_commit hkey hprepared hdb

/-- A mutation of the available balance leaves what is locked. -/
theorem lockedOf_mutateBalance (hdb : WellFormed db)
    (hchange : ∀ amount, (op.mutation.change amount).2 = 0) :
    lockedOf (mutateBalance op.mutation newId params db).1 userId currency =
      lockedOf db userId currency := by
  have hresult : mutateBalance op.mutation newId params db =
      ((mutateBalance op.mutation newId params db).1, _) := rfl
  rcases mutateBalance_cases hresult with ⟨hsame, -⟩ | ⟨account, prepared, -, hprepared, hsame, -⟩
  · rw [hsame]
  · rw [hsame, lockedOf, accountBalances_commit hdb hprepared]
    split
    · rw [Option.getD_some, Prod.snd_add, hchange, add_zero, lockedOf]
    · rfl

theorem ledgerKey_eq (h : validateRequest isValidUuid request = .ok params) :
    params.idempotencyKey = ledgerKey request := by
  obtain ⟨-, -, -, hrequired⟩ := validateRequest_eq_ok h
  unfold requireIdempotencyKey at hrequired
  split at hrequired
  · cases hrequired
  · exact (Except.ok.inj hrequired).symm

theorem mutated_serve (hdb : WellFormed db) :
    Mutated (operation request.method).mutation.expectedType (ledgerKey request) db
      (serve isValidUuid request db).1 := by
  cases heffect : takesEffect isValidUuid request db with
  | false =>
    rw [serve_of_not_takesEffect heffect]
    exact mutated_refl hdb
  | true =>
    obtain ⟨params, account, hparams, hkey, hprepared, hserve⟩ := serve_of_takesEffect heffect
    rw [hserve, ← ledgerKey_eq hparams]
    exact mutated_commit hkey hprepared hdb

/-- A request that succeeds moves funds, unless an earlier row of its type has its key. -/
theorem takesEffect_of_ok {account : Account} (hdb : WellFormed db)
    (hunused : ∀ t ∈ db.ledgerTransactions,
      t.type = (operation request.method).mutation.expectedType →
        t.idempotencyKey ≠ some (ledgerKey request))
    (h : (serve isValidUuid request db).2 = .ok account) :
    takesEffect isValidUuid request db = true := by
  rw [serve_eq_mutate] at h
  unfold mutate at h
  split at h
  · cases h
  · next params hparams =>
    split at h
    · next db' result hresult =>
      rcases mutateBalance_cases hresult with
        ⟨-, hne⟩ | ⟨account, prepared, hkey, hprepared, -, -⟩
      · cases result with
        | ok a => exact absurd rfl (hne a)
        | idempotentReplay a =>
          have hreplayed : (mutateBalance (operation request.method).mutation "" params db).2.map
              status = some .idempotentReplay := by
            rw [hresult]
            rfl
          obtain ⟨-, t, ht, hdata⟩ := mutateBalance_replay hreplayed hdb
          obtain ⟨hmem, hkey⟩ := lookup_mem ht
          exact absurd (ledgerKey_eq hparams ▸ hkey) (hunused t hmem (congrArg (fun d => d.2.2) hdata))
        | _ => cases h
      · cases hprepared with
        | found hfound hguard =>
          simp [takesEffect, hparams, hkey, hfound, hguard]
        | opened hopens => simp [opensAccount_operation] at hopens
    · cases h

theorem serve_of_deliver {message : String}
    (h : (OrderSagas.deliver isValidUuid .answered message request db).2 = .ok) :
    ∃ account, (serve isValidUuid request db).2 = .ok account := by
  simp only [OrderSagas.deliver] at h
  split at h
  · next account hserve => exact ⟨account, hserve⟩
  · cases h

/-! ### Refusals -/

theorem bind_eq_error {ε α β : Type} {x : Except ε α} {f : α → Except ε β} {e : ε} :
    (x >>= f) = .error e ↔ x = .error e ∨ ∃ a, x = .ok a ∧ f a = .error e := by
  cases x with
  | error e' => simp [bind, Except.bind]
  | ok a => simp [bind, Except.bind]

/-- The checks of a request have errors of their own. -/
theorem validateRequest_errorCode {exception : BalanceException}
    (h : validateRequest isValidUuid request = .error exception) :
    exception.errorCode ≠ BalancesErrorCodes.insufficientLockedBalance := by
  simp only [validateRequest, bind_eq_error] at h
  rcases h with huser | ⟨userId, -, hcurrency | ⟨currency, -, hamount | ⟨amount, -, hkey | ⟨key, -, hlast⟩⟩⟩⟩
  · unfold validateUserId at huser
    split at huser
    · obtain rfl := Except.error.inj huser
      decide
    · cases huser
  · unfold normalizeCurrency at hcurrency
    split at hcurrency
    · split at hcurrency
      · cases hcurrency
      · split at hcurrency
        · cases hcurrency
        · obtain rfl := Except.error.inj hcurrency
          exact show BalancesErrorCodes.unsupportedCurrency ≠ _ by decide
    · cases hcurrency
  · unfold validateAmount at hamount
    split at hamount
    · cases hamount
    · obtain rfl := Except.error.inj hamount
      decide
  · unfold requireIdempotencyKey at hkey
    split at hkey
    · obtain rfl := Except.error.inj hkey
      decide
    · cases hkey
  · cases hlast

theorem lockedBalance_lt_of_refusal {account : Account} {amount : Amount} {locked : ℤ}
    (h : op.mutation.refusal account amount = some (.insufficientLocked locked)) :
    account.lockedBalance < amount.units := by
  cases op with
  | deposit => cases h
  | creditDeposit => cases h
  | lock =>
    simp only [BalanceOperation.mutation, lockMutation] at h
    split at h <;> cases h
  | unlock =>
    simp only [BalanceOperation.mutation, unlockMutation] at h
    split at h
    · cases h
    · next hless => exact not_le.mp hless
  | debitWithdrawal =>
    simp only [BalanceOperation.mutation, debitWithdrawalMutation] at h
    split at h
    · cases h
    · next hless => exact not_le.mp hless

/-- A mutation reports too little locked only where less is locked than it takes. -/
theorem lockedOf_lt_of_insufficientLocked {locked : ℤ}
    (h : (mutateBalance op.mutation newId params db).2 = some (.insufficientLocked locked)) :
    lockedOf db params.userId params.currency < params.amount.units := by
  unfold mutateBalance at h
  split at h
  · next replay hreplay =>
    exfalso
    obtain rfl := Option.some.inj h
    unfold resolveIdempotencyReplay readReplayedAccount at hreplay
    split at hreplay
    · cases hreplay
    · cases hreplay
    · split at hreplay <;> cases hreplay
  · split at h
    · next account hfound =>
      split at h
      · next refused hrefused =>
        obtain rfl := Option.some.inj h
        have hlocked : lockedOf db params.userId params.currency = account.lockedBalance := by
          rw [lockedOf, accountBalances, hfound]
          rfl
        rw [hlocked]
        exact lockedBalance_lt_of_refusal hrefused
      · cases h
    · split at h
      · split at h <;> cases h
      · cases h

/-- An unlock of what is locked is not refused for want of it. -/
theorem errorCode_of_le_lockedOf {units : ℤ} {exception : BalanceException}
    (hcurrency : normalizeCurrency request.currency = .ok request.currency)
    (hunits : request.amount.toNumeric = some units)
    (hle : units ≤ lockedOf db request.userId request.currency)
    (h : (serve isValidUuid request db).2 = .error (.rpc exception)) :
    exception.errorCode ≠ BalancesErrorCodes.insufficientLockedBalance := by
  rw [serve_eq_mutate] at h
  unfold mutate at h
  split at h
  · next failed hfailed =>
    obtain rfl : failed = exception := BalanceFailure.rpc.inj (Except.error.inj h)
    exact validateRequest_errorCode hfailed
  · next params hparams =>
    obtain ⟨huser, hcur, hamount, -⟩ := validateRequest_eq_ok hparams
    have hcur' : params.currency = request.currency := Except.ok.inj (hcur.symm.trans hcurrency)
    obtain rfl : units = params.amount.units := Option.some.inj (hunits.symm.trans hamount)
    split at h
    · next db' result hresult =>
      cases result with
      | insufficientLocked locked =>
        have hlt := lockedOf_lt_of_insufficientLocked (congrArg Prod.snd hresult)
        rw [huser, hcur'] at hlt
        omega
      | ok account => cases h
      | idempotentReplay account => cases h
      | notFound =>
        obtain rfl := BalanceFailure.rpc.inj (Except.error.inj h)
        exact show BalancesErrorCodes.accountNotFound ≠ _ by decide
      | insufficientAvailable available =>
        obtain rfl := BalanceFailure.rpc.inj (Except.error.inj h)
        exact show BalancesErrorCodes.insufficientBalance ≠ _ by decide
      | idempotencyPayloadMismatch =>
        obtain rfl := BalanceFailure.rpc.inj (Except.error.inj h)
        decide
    · cases Except.error.inj h

/-! ### Deliveries -/

/-- What a settlement takes on a side is what its leg on that side moves out of locked. -/
theorem takenOn_eq {trade : OrdersSchema.TradeExecutedEvent} {f : Figures}
    (hf : figures (TradeSettlement.calculateSettlementAmounts (settledTrade trade)) = some f)
    {owner : Uuid × Currency} {side : OrderSide} :
    takenOn owner side trade =
      if paidBy side trade = owner then -(f.change (reservedOn side)).2 else 0 := by
  rw [takenOn, takenFromLocked, hf, Option.map_some, Option.getD_some]

/-- What a settlement takes is what its legs move out of locked. -/
theorem lockedOf_settledDb {envelope : DomainEventEnvelope}
    {trade : OrdersSchema.TradeExecutedEvent} {ids : Participant → Uuid}
    {writes : TradeSettlement.SettlementWrites} {f : Figures} (hdb : WellFormed db)
    (hs : Settlement envelope (settledTrade trade) ids writes db)
    (hf : figures (TradeSettlement.calculateSettlementAmounts (settledTrade trade)) = some f) :
    lockedOf (settledDb envelope (settledTrade trade) ids f db) userId currency =
      lockedOf db userId currency - takenBy (userId, currency) trade := by
  have hpaid (side : OrderSide) : paidBy side trade = (settledTrade trade).owner (reservedOn side) := by
    cases side <;> rfl
  rw [lockedOf, accountBalances_settledDb hdb hs, takenBy, takenOn_eq hf, takenOn_eq hf, lockedOf,
    hpaid, hpaid]
  cases haccount : accountBalances db userId currency with
  | none =>
    have hother (p : Participant) : (settledTrade trade).owner p ≠ (userId, currency) := by
      intro heq
      obtain ⟨a, ha, howner⟩ := hs.owned p
      have hfound := hdb.findByUserAndCurrency_of_id ha
      obtain ⟨hu, hc⟩ := Prod.mk.inj (howner.trans heq)
      rw [hu, hc] at hfound
      rw [accountBalances, hfound] at haccount
      cases haccount
    simp only [hother, if_false, add_zero, sub_zero, Option.map_none]
  | some balances =>
    have hlegs : (legOrder.map fun p => if (settledTrade trade).owner p = (userId, currency) then
        f.change p else 0).sum.2 = (legOrder.map fun p =>
          if (settledTrade trade).owner p = (userId, currency) then (f.change p).2 else 0).sum := by
      simp only [legOrder, List.map_cons, List.map_nil, List.sum_cons, List.sum_nil, Prod.snd_add,
        apply_ite Prod.snd, Prod.snd_zero]
    rw [Option.map_some, Option.getD_some, Option.getD_some, Prod.snd_add, hlegs]
    simp only [legOrder, List.map_cons, List.map_nil, List.sum_cons, List.sum_nil, reservedOn,
      Figures.change, ite_self, zero_add, add_zero]
    by_cases hbuyer : (settledTrade trade).owner .buyerQuote = (userId, currency) <;>
      by_cases hseller : (settledTrade trade).owner .sellerBase = (userId, currency) <;>
        simp only [hbuyer, hseller, if_true, if_false] <;> omega

theorem acceptMessage_eq_inr {payload : KafkaBatchConsumerPayload} {envelope : DomainEventEnvelope}
    {trade : TradeSettlement.TradeExecutedEvent} (h : acceptMessage payload = .inr (envelope, trade)) :
    payload.value = some envelope ∧ envelope.payload = some trade := by
  unfold acceptMessage at h
  split at h
  · cases h
  · next hvalue =>
    split at h
    · cases h
    · next hpayload =>
      split at h
      · cases h
      · split at h
        · cases h
        · split at h
          · cases h
          · obtain ⟨rfl, rfl⟩ := Prod.mk.inj (Sum.inr.inj h)
            exact ⟨hvalue, hpayload⟩

/-- Opening accounts with zero balances leaves what is locked. -/
theorem lockedOf_opened {trade : TradeSettlement.TradeExecutedEvent} {opened : AccountsDb}
    {ids : Participant → Uuid} (h : ParticipantsOpened trade db opened ids) :
    lockedOf opened userId currency = lockedOf db userId currency := by
  rw [lockedOf, h.balances, lockedOf]
  split <;> rfl

/-- What a delivery does to what is locked and to the record of processed events. -/
structure Settled (eventId : Uuid) (trade : OrdersSchema.TradeExecutedEvent) (db db' : AccountsDb) :
    Prop where
  wellFormed : WellFormed db'
  lockRows : ∀ t ∈ db'.ledgerTransactions, t.type = .lock → t ∈ db.ledgerTransactions
  effect : (∀ userId currency, lockedOf db' userId currency = lockedOf db userId currency) ∧
      (∀ id, db'.isEventProcessed id = db.isEventProcessed id) ∨
    db.isEventProcessed eventId = false ∧
      (∀ userId currency, lockedOf db' userId currency =
        lockedOf db userId currency - takenBy (userId, currency) trade) ∧
      ∀ id, db'.isEventProcessed id = (db.isEventProcessed id || decide (eventId = id))

theorem settled_settle {odb : OrdersDb} {n : ℕ} {offset actionHeader : String}
    {payload : KafkaBatchConsumerPayload} {newIds : Participant → Uuid} (hdb : WellFormed db)
    (hmessage : settlementMessage eventIds odb n offset actionHeader = some payload)
    (h : settle payload newIds db = some db') :
    ∃ trade, odb.outboxEvents[n]?.bind OutboxEvent.trade = some trade ∧
      Settled (eventIds n) trade db db' := by
  obtain ⟨trade, htrade, rfl⟩ := Option.map_eq_some_iff.mp hmessage
  refine ⟨trade, htrade, ?_⟩
  unfold settle at h
  split at h
  · next hfresh =>
    obtain rfl := Option.some.inj h
    have hspec := handleMessage_spec hdb hfresh
    cases haccept : acceptMessage (⟨offset, some ⟨eventIds n, tradeExecuted,
        "matching.trade_executed", some (settledTrade trade)⟩, actionHeader⟩ :
          KafkaBatchConsumerPayload) with
    | inl outcome =>
      rw [haccept] at hspec
      rw [hspec]
      exact ⟨hdb, fun _ ht _ => ht, Or.inl ⟨fun _ _ => rfl, fun _ => rfl⟩⟩
    | inr accepted =>
      obtain ⟨envelope, accepted⟩ := accepted
      rw [haccept] at hspec
      obtain ⟨hvalue, hpayload⟩ := acceptMessage_eq_inr haccept
      obtain rfl := Option.some.inj hvalue
      obtain rfl := Option.some.inj hpayload
      obtain ⟨opened, ids, hopened, hresult⟩ := hspec
      have hevents (id : Uuid) : opened.isEventProcessed id = db.isEventProcessed id := by
        rw [AccountsDb.isEventProcessed, AccountsDb.findProcessedEvent, hopened.events]
        rfl
      split at hresult
      · next hnew =>
        obtain ⟨f, writes, hf, hs, hsettled⟩ := hresult
        rw [hsettled]
        refine ⟨wellFormed_settledDb hs hopened.wellFormed, fun t ht htype => ?_,
          Or.inr ⟨hnew.1, fun userId currency => ?_, fun id => ?_⟩⟩
        · simp only [settledDb, AccountsDb.markEventProcessed, AccountsDb.insertLedgerTransactions,
            AccountsDb.adjust, hopened.ledger] at ht
          rcases List.mem_append.mp ht with hold | hentry
          · exact hold
          · obtain ⟨p, -, rfl⟩ := List.mem_map.mp hentry
            cases htype
        · rw [lockedOf_settledDb hopened.wellFormed hs hf, lockedOf_opened hopened]
        · rw [isEventProcessed_settledDb, hevents]
      · rw [hresult]
        exact ⟨hopened.wellFormed, fun t ht _ => hopened.ledger ▸ ht,
          Or.inl ⟨fun _ _ => lockedOf_opened hopened, hevents⟩⟩
  · cases h

end EtherTrade.LockedFunds
