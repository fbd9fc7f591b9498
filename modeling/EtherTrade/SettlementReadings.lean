import EtherTrade.TradesSettlementConsumer

/-!
# Settlement messages as typed messages

A message whose value reads as a typed message is handled as the typed one is: the same
decisions before any statement, the same amounts, and on a database that is asked by nobody
else the same end.
-/

namespace EtherTrade.SettlementReadings

open DecimalNumbers KeyedRows AccountsSchema JsonValues KafkaConsumer TradesSettlementConsumer
open TradeSettlement (Participant TradeExecutedEvent DomainEventEnvelope HandleOutcome acceptMessage
  selectLocked settlementWrites tradeExecuted)

variable {s : Surroundings} {numberOf : Option Json → BigNumber} {fixed : NumericText → String}
  {refused : Thrown} {payload : KafkaBatchConsumerPayload} {value tradeValue : Json}
  {typed : TradeSettlement.KafkaBatchConsumerPayload} {envelope : DomainEventEnvelope}
  {trade : TradeExecutedEvent} {newIds : Participant → Uuid} {db : AccountsDb}
  {field : Option Json} {text : String}

/-! ### Readings -/

/-- A text that is missing is empty. -/
def ReadsText (field : Option Json) (text : String) : Prop :=
  field = some (.string text) ∨ text = "" ∧ field = none

/-- A text that stands for the number. -/
def ReadsNumber (numberOf : Option Json → BigNumber) (field : Option Json) (number : BigNumber) :
    Prop :=
  numberOf field = number ∧ ∃ text, field = some (.string text)

/-- The value reads as the trade, its numbers as `numberOf` has them. -/
structure ReadsTrade (numberOf : Option Json → BigNumber) (value : Json)
    (trade : TradeExecutedEvent) : Prop where
  tradeId : value.get "tradeId" = some (.string trade.tradeId)
  buyerUserId : value.get "buyerUserId" = some (.string trade.buyerUserId)
  sellerUserId : value.get "sellerUserId" = some (.string trade.sellerUserId)
  symbol : splitSymbol (value.get "symbol") =
    .ok (trade.symbol.base.code, some trade.symbol.quote.code)
  price : ReadsNumber numberOf (value.get "price") trade.price
  quantity : ReadsNumber numberOf (value.get "quantity") trade.quantity
  buyerLimitPrice : ReadsNumber numberOf (value.get "buyerLimitPrice") trade.buyerLimitPrice

structure ReadsEnvelope (numberOf : Option Json → BigNumber) (value : Json)
    (envelope : DomainEventEnvelope) : Prop where
  eventId : ReadsText (value.get "eventId") envelope.eventId
  action : ReadsText (value.get "action") envelope.action
  missing : envelope.payload = none → truthy (value.get "payload") = false
  payload : ∀ trade, envelope.payload = some trade → truthy (value.get "payload") = true ∧
    ReadsTrade numberOf ((value.get "payload").getD .null) trade

structure Reads (numberOf : Option Json → BigNumber) (payload : KafkaBatchConsumerPayload)
    (typed : TradeSettlement.KafkaBatchConsumerPayload) : Prop where
  offset : payload.offset = typed.offset
  header : (payload.headers.lookup KafkaHeaders.action).getD "" = typed.actionHeader
  missing : typed.value = none → payload.value.truthy = false
  envelope : ∀ envelope, typed.value = some envelope → payload.value.truthy = true ∧
    ReadsEnvelope numberOf payload.value envelope

theorem ok_bind {α β : Type} (a : α) (f : α → Except Thrown β) :
    (Except.ok a >>= f : Except Thrown β) = f a := rfl

theorem ReadsText.truthy_eq (h : ReadsText field text) : truthy field = decide (text ≠ "") := by
  rcases h with rfl | ⟨rfl, rfl⟩
  · rfl
  · simp [truthy]

theorem ReadsText.eq_of_ne (h : ReadsText field text) (hne : text ≠ "") :
    field = some (.string text) :=
  h.resolve_right fun hmissing => hne hmissing.1

theorem ReadsText.text_ok (h : ReadsText field text) : discard (s.text field) = .ok () := by
  rcases h with rfl | ⟨-, rfl⟩ <;> rfl

/-- The action of a message, from its envelope or its header. -/
theorem readsText_messageAction (h : Reads numberOf payload typed)
    (hvalue : ReadsEnvelope numberOf payload.value envelope) :
    ReadsText (messageAction payload) (TradeSettlement.messageAction typed envelope) := by
  rw [messageAction, TradeSettlement.messageAction, hvalue.action.truthy_eq, ← h.header]
  by_cases hempty : envelope.action = ""
  · simp only [hempty, ne_eq, not_true_eq_false, decide_false, Bool.false_eq_true, if_false,
      if_true]
    cases payload.headers.lookup KafkaHeaders.action with
    | none => exact Or.inr ⟨rfl, rfl⟩
    | some action => exact Or.inl rfl
  · simp only [hempty, ne_eq, not_false_eq_true, decide_true, if_true, if_false]
    exact hvalue.action

theorem strictlyEqual_string (a b : String) :
    strictlyEqual (some (.string a)) (some (.string b)) = decide (a = b) := rfl

theorem otherAction_iff (h : Reads numberOf payload typed)
    (hvalue : ReadsEnvelope numberOf payload.value envelope) :
    OtherAction payload = true ↔ TradeSettlement.messageAction typed envelope ≠ "" ∧
      TradeSettlement.messageAction typed envelope ≠ tradeExecuted := by
  have haction := readsText_messageAction h hvalue
  rw [OtherAction, haction.truthy_eq]
  by_cases hempty : TradeSettlement.messageAction typed envelope = ""
  · simp [hempty]
  · rw [haction.eq_of_ne hempty, strictlyEqual_string]
    simp [hempty]

/-! ### Decisions and amounts -/

/-- How the handler ends: with an error or without. -/
def result (refused : Thrown) : HandleOutcome → Except Thrown Unit
  | .thrown message => thrown message
  | .databaseError => .error refused
  | _ => .ok ()

theorem invalidSchema_of_reads (refused : Thrown) (h : Reads numberOf payload typed)
    (hschema : ValidSchema payload.value = false) :
    handleMessage s payload =
      result refused (.thrown (TradeSettlement.invalidEventSchema typed)) := by
  rw [handleMessage, hschema, h.offset]
  rfl

/-- Before any statement, both models decide alike. -/
theorem handleMessage_of_reads (refused : Thrown) (h : Reads numberOf payload typed) :
    handleMessage s payload = (acceptMessage typed).elim (result refused)
      fun _ => settleTrade s payload.value ((payload.value.get "payload").getD .null) := by
  cases hvalue : typed.value with
  | none =>
    rw [acceptMessage, hvalue]
    exact invalidSchema_of_reads refused h
      (by simp [ValidSchema, h.missing hvalue])
  | some envelope =>
    obtain ⟨htruthy, hread⟩ := h.envelope envelope hvalue
    cases hpayload : envelope.payload with
    | none =>
      simp only [acceptMessage, hvalue, hpayload]
      exact invalidSchema_of_reads refused h (by simp [ValidSchema, hread.missing hpayload])
    | some trade =>
      obtain ⟨hobject, htrade⟩ := hread.payload trade hpayload
      simp only [acceptMessage, hvalue, hpayload]
      by_cases hid : envelope.eventId = ""
      · rw [if_pos hid]
        exact invalidSchema_of_reads refused h (by simp [ValidSchema, hread.eventId.truthy_eq, hid])
      · have hschema : ValidSchema payload.value = true := by
          simp [ValidSchema, htruthy, hobject, hread.eventId.truthy_eq, hid]
        rw [if_neg hid, handleMessage, hschema]
        simp only [Bool.not_true, Bool.false_eq_true, if_false]
        by_cases haction : TradeSettlement.messageAction typed envelope ≠ "" ∧
            TradeSettlement.messageAction typed envelope ≠ tradeExecuted
        · rw [if_pos haction, if_pos ((otherAction_iff h hread).mpr haction)]
          exact (readsText_messageAction h hread).text_ok
        · rw [if_neg haction, if_neg (mt (otherAction_iff h hread).mp haction), SelfTrade,
            htrade.buyerUserId, htrade.sellerUserId, htrade.tradeId, strictlyEqual_string]
          by_cases hself : trade.buyerUserId = trade.sellerUserId
          · rw [if_pos hself, if_pos (decide_eq_true hself)]
            rfl
          · rw [if_neg hself, if_neg (by simpa using hself)]
            rfl

/-- The envelope and the trade of a message that is settled. -/
theorem reads_of_accepted (h : Reads numberOf payload typed)
    (haccept : acceptMessage typed = .inr (envelope, trade)) :
    payload.value.get "eventId" = some (.string envelope.eventId) ∧
      ReadsTrade numberOf ((payload.value.get "payload").getD .null) trade := by
  unfold acceptMessage at haccept
  cases hvalue : typed.value with
  | none =>
    rw [hvalue] at haccept
    cases haccept
  | some envelope' =>
    obtain ⟨-, hread⟩ := h.envelope envelope' hvalue
    cases hpayload : envelope'.payload with
    | none =>
      simp only [hvalue, hpayload] at haccept
      cases haccept
    | some trade' =>
      simp only [hvalue, hpayload] at haccept
      split_ifs at haccept with hid haction hself
      cases haccept
      exact ⟨hread.eventId.eq_of_ne hid, (hread.payload _ hpayload).2⟩

/-- bignumber.js on values that stand for numbers, with the texts that it writes. -/
def decimals (numberOf : Option Json → BigNumber) (fixed : NumericText → String) : BigNumbers where
  Number := BigNumber
  construct value := .ok (numberOf value)
  multipliedBy a b := .ok (a.multipliedBy b)
  minus a b := .ok (a.minus b)
  isGreaterThan a b := .ok (a.isGreaterThan b)
  toFixed a := .ok (fixed a.toFixed)

/-- The amounts of a trade as texts. No surplus is the literal `'0'`. -/
def amountTexts (fixed : NumericText → String) (trade : TradeExecutedEvent) :
    SettlementAmounts where
  quoteCost := fixed (TradeSettlement.calculateSettlementAmounts trade).quoteCost
  baseQuantity := fixed (TradeSettlement.calculateSettlementAmounts trade).baseQuantity
  surplusRefund :=
    if trade.buyerLimitPrice.isGreaterThan trade.price then
      fixed (TradeSettlement.calculateSettlementAmounts trade).surplusRefund
    else "0"
  baseCurrency := trade.symbol.base.code
  quoteCurrency := some trade.symbol.quote.code

/-- Both models compute the same amounts. -/
theorem calculateSettlementAmounts_of_reads (h : ReadsTrade numberOf value trade) :
    calculateSettlementAmounts (decimals numberOf fixed) value = .ok (amountTexts fixed trade) := by
  rw [calculateSettlementAmounts, h.symbol, amountTexts]
  cases hgreater : trade.buyerLimitPrice.isGreaterThan trade.price <;>
    simp [ok_bind, decimals, h.price.1, h.quantity.1, h.buyerLimitPrice.1, hgreater,
      TradeSettlement.calculateSettlementAmounts]

/-! ### The database -/

/-- The database when the account of a participant is looked for. -/
def openedBefore (trade : TradeExecutedEvent) (newIds : Participant → Uuid) (db : AccountsDb) :
    Participant → AccountsDb :=
  let after (p : Participant) (db : AccountsDb) :=
    (BalanceMutations.findOrCreate (newIds p) (trade.owner p).1 (trade.owner p).2 db).1
  fun
  | .buyerQuote => db
  | .buyerBase => after .buyerQuote db
  | .sellerQuote => after .buyerBase (after .buyerQuote db)
  | .sellerBase => after .sellerQuote (after .buyerBase (after .buyerQuote db))

/-- The account of a participant, found or opened. -/
def accountOf (trade : TradeExecutedEvent) (newIds : Participant → Uuid) (db : AccountsDb)
    (p : Participant) : Except String Account :=
  (BalanceMutations.findOrCreate (newIds p) (trade.owner p).1 (trade.owner p).2
    (openedBefore trade newIds db p)).2

/-- The database after the accounts were looked for. -/
abbrev opened (trade : TradeExecutedEvent) (newIds : Participant → Uuid) (db : AccountsDb) :
    AccountsDb :=
  (TradeSettlement.findOrCreateParticipants trade newIds db).1

/-- The surroundings answer as a database does that nobody else asks meanwhile, and that has
the accounts looked for one after the other. -/
structure AnswersAs (s : Surroundings) (refused : Thrown) (fixed : NumericText → String)
    (value : Json) (envelope : DomainEventEnvelope) (trade : TradeExecutedEvent)
    (newIds : Participant → Uuid) (db : AccountsDb) : Prop where
  order : s.order = Participant.all
  found p : s.findByUserAndCurrency (some (.string (trade.owner p).1))
      (some (trade.owner p).2.code) =
    .ok (((openedBefore trade newIds db p).findByUserAndCurrency (trade.owner p).1
      (trade.owner p).2).map Account.id)
  inserted p : s.insertAccount (some (.string (trade.owner p).1)) (some (trade.owner p).2.code) =
    if ((openedBefore trade newIds db p).findById (newIds p)).isSome then .error refused
    else .ok (newIds p)
  fallback p : s.findFallback (some (.string (trade.owner p).1)) (some (trade.owner p).2.code) =
    .ok none
  begin : s.begin = .ok ()
  processed : s.isEventProcessed (some (.string envelope.eventId)) =
    .ok ((opened trade newIds db).isEventProcessed envelope.eventId)
  locked accountIds : s.lockAccounts (Participant.all.map accountIds) =
    .ok ((selectLocked accountIds (opened trade newIds db)).map Account.id)
  written accountIds : s.writeSettlement value (amountTexts fixed trade) accountIds =
    if (settlementWrites trade accountIds
      (selectLocked accountIds (opened trade newIds db))).isSome then .ok () else .error refused
  commit : s.commit = .ok ()

/-- The participant with the account. -/
def participantOf (trade : TradeExecutedEvent) (userId : Option Json) (currency : Option String) :
    Option Participant :=
  Participant.all.find? fun p => strictlyEqual userId (some (.string (trade.owner p).1)) &&
    currency = some (trade.owner p).2.code

/-- What a database answers that nobody else asks meanwhile. -/
def answering (numberText : JsonNumber → String) (numberOf : Option Json → BigNumber)
    (fixed : NumericText → String) (refused : Thrown) (envelope : DomainEventEnvelope)
    (trade : TradeExecutedEvent) (newIds : Participant → Uuid) (db : AccountsDb) :
    Surroundings where
  numberText := numberText
  numbers := decimals numberOf fixed
  findByUserAndCurrency userId currency :=
    .ok ((participantOf trade userId currency).bind fun p =>
      ((openedBefore trade newIds db p).findByUserAndCurrency (trade.owner p).1
        (trade.owner p).2).map Account.id)
  insertAccount userId currency :=
    ((participantOf trade userId currency).filter fun p =>
      ((openedBefore trade newIds db p).findById (newIds p)).isNone).elim (.error refused)
        fun p => .ok (newIds p)
  findFallback _ _ := .ok none
  order := Participant.all
  begin := .ok ()
  isEventProcessed _ := .ok ((opened trade newIds db).isEventProcessed envelope.eventId)
  lockAccounts accountIds :=
    .ok (((accountIds.dedup.insertionSort (· ≤ ·)).filterMap
      (opened trade newIds db).findById).map Account.id)
  writeSettlement _ _ accountIds :=
    if (settlementWrites trade accountIds
      (selectLocked accountIds (opened trade newIds db))).isSome then .ok () else .error refused
  commit := .ok ()

/-- The four accounts of the trade are different ones. -/
def DistinctOwners (trade : TradeExecutedEvent) : Prop :=
  ∀ p q, (trade.owner p).1 = (trade.owner q).1 →
    (trade.owner p).2.code = (trade.owner q).2.code → p = q

theorem participantOf_owner (hdistinct : DistinctOwners trade) (p : Participant) :
    participantOf trade (some (.string (trade.owner p).1)) (some (trade.owner p).2.code) =
      some p := by
  have hp (q : Participant) : (strictlyEqual (some (.string (trade.owner p).1))
      (some (.string (trade.owner q).1)) && decide (some (trade.owner p).2.code =
        some (trade.owner q).2.code)) = decide (p = q) := by
    rw [strictlyEqual_string, ← Bool.decide_and, decide_eq_decide]
    exact ⟨fun h => hdistinct p q h.1 (Option.some.inj h.2), fun h => h ▸ ⟨rfl, rfl⟩⟩
  rw [participantOf, funext hp]
  cases p <;> rfl

/-- Such a database answers like the typed one. -/
theorem answersAs_answering {numberText : JsonNumber → String}
    (hdistinct : DistinctOwners trade) :
    AnswersAs (answering numberText numberOf fixed refused envelope trade newIds db) refused fixed
      value envelope trade newIds db where
  order := rfl
  found p := by
    dsimp only [answering]
    rw [participantOf_owner hdistinct, Option.bind_some]
  inserted p := by
    dsimp only [answering]
    rw [participantOf_owner hdistinct, Option.filter_some]
    cases (openedBefore trade newIds db p).findById (newIds p) <;> rfl
  fallback _ := rfl
  begin := rfl
  processed := rfl
  locked _ := rfl
  written _ := rfl
  commit := rfl

/-- A failure of the repository as the handler sees it. -/
def answered {α : Type} : Except String α → Except Thrown α
  | .ok a => .ok a
  | .error message => thrown message

theorem owner_of_reads (h : ReadsTrade numberOf value trade) (p : Participant) :
    owner value trade.symbol.base.code (some trade.symbol.quote.code) p =
      (some (.string (trade.owner p).1), some (trade.owner p).2.code) := by
  cases p <;> simp [owner, TradeExecutedEvent.owner, h.buyerUserId, h.sellerUserId]

theorem accountCreateFailed_eq (userId : Uuid) (currency : Currency) :
    accountCreateFailed userId currency.code =
      BalanceMutations.accountCreateFailed userId currency := by
  unfold accountCreateFailed BalanceMutations.accountCreateFailed
  generalize "Failed to create or find account for user: " = message
  generalize " and currency: " = between
  simp only [String.append_assoc]

theorem findOrCreate_of_answers
    (h : AnswersAs s refused fixed value envelope trade newIds db) (p : Participant) :
    findOrCreate s (some (.string (trade.owner p).1)) (some (trade.owner p).2.code) =
      answered ((accountOf trade newIds db p).map Account.id) := by
  rw [findOrCreate, h.found, h.inserted, h.fallback, accountOf, BalanceMutations.findOrCreate]
  cases (openedBefore trade newIds db p).findByUserAndCurrency (trade.owner p).1
    (trade.owner p).2 with
  | some account => rfl
  | none =>
    by_cases htaken : ((openedBefore trade newIds db p).findById (newIds p)).isSome = true
    · rw [if_pos htaken, if_pos htaken, ← accountCreateFailed_eq]
      rfl
    · rw [if_neg htaken, if_neg htaken]
      rfl

theorem forM_all (f : Participant → Except Thrown PUnit) : Participant.all.forM f = (do
    f .buyerQuote
    f .buyerBase
    f .sellerQuote
    f .sellerBase
    return ⟨⟩) := rfl

/-- Both models find or open the same accounts, or fail at the same one. -/
theorem findOrCreateParticipants_of_answers (hread : ReadsTrade numberOf tradeValue trade)
    (h : AnswersAs s refused fixed value envelope trade newIds db) :
    findOrCreateParticipants s tradeValue trade.symbol.base.code (some trade.symbol.quote.code) =
      answered (TradeSettlement.findOrCreateParticipants trade newIds db).2 := by
  have htyped : (TradeSettlement.findOrCreateParticipants trade newIds db).2 = (do
      let buyerQuote ← accountOf trade newIds db .buyerQuote
      let buyerBase ← accountOf trade newIds db .buyerBase
      let sellerQuote ← accountOf trade newIds db .sellerQuote
      let sellerBase ← accountOf trade newIds db .sellerBase
      return fun
        | .buyerQuote => buyerQuote.id
        | .buyerBase => buyerBase.id
        | .sellerQuote => sellerQuote.id
        | .sellerBase => sellerBase.id) := rfl
  rw [htyped, findOrCreateParticipants, h.order]
  simp only [forM_all, owner_of_reads hread, findOrCreate_of_answers h]
  rcases accountOf trade newIds db .buyerQuote with message | buyerQuote
  · rfl
  rcases accountOf trade newIds db .buyerBase with message | buyerBase
  · rfl
  rcases accountOf trade newIds db .sellerQuote with message | sellerQuote
  · rfl
  rcases accountOf trade newIds db .sellerBase with message | sellerBase
  · rfl
  rfl

/-! ### The transaction -/

theorem lookup_isSome (rows : List Account) (id : Uuid) :
    (lookup Account.id rows id).isSome = decide (id ∈ rows.map Account.id) := by
  rw [Bool.eq_iff_iff]
  simp [lookup]

/-- Both transactions end alike. -/
theorem settleTransaction_of_answers (hread : ReadsTrade numberOf tradeValue trade)
    (heventId : value.get "eventId" = some (.string envelope.eventId))
    (h : AnswersAs s refused fixed value envelope trade newIds db)
    (accountIds : Participant → Uuid) :
    settleTransaction s value tradeValue (amountTexts fixed trade) accountIds =
      result refused (TradeSettlement.settleTransaction envelope trade accountIds
        (opened trade newIds db)).2 := by
  obtain ⟨-, quantityText, hquantity⟩ := hread.quantity
  obtain ⟨-, priceText, hprice⟩ := hread.price
  rw [settleTransaction, TradeSettlement.settleTransaction, h.begin, heventId, h.processed,
    h.locked, h.written, h.commit, hread.tradeId, hquantity, hprice]
  simp only [lookup_isSome, ok_bind]
  cases (opened trade newIds db).isEventProcessed envelope.eventId with
  | true => rfl
  | false =>
    cases hall : Participant.all.all fun p => decide (accountIds p ∈
        (selectLocked accountIds (opened trade newIds db)).map Account.id) with
    | false => rfl
    | true =>
      cases settlementWrites trade accountIds
        (selectLocked accountIds (opened trade newIds db)) with
      | none => rfl
      | some writes => rfl

/-- On a database that nobody else asks, the message ends as the typed one does. -/
theorem handleMessage_of_answers (hread : Reads numberOf payload typed)
    (hnumbers : s.numbers = decimals numberOf fixed)
    (hanswers : ∀ envelope trade, acceptMessage typed = .inr (envelope, trade) →
      AnswersAs s refused fixed payload.value envelope trade newIds db) :
    handleMessage s payload =
      result refused (TradeSettlement.handleMessage typed newIds db).2 := by
  rw [handleMessage_of_reads refused hread, TradeSettlement.handleMessage]
  rcases haccept : acceptMessage typed with outcome | ⟨envelope, trade⟩
  · rfl
  · obtain ⟨heventId, htrade⟩ := reads_of_accepted hread haccept
    have hdb := hanswers envelope trade haccept
    rw [Sum.elim_inr, settleTrade, hnumbers, calculateSettlementAmounts_of_reads htrade, ok_bind]
    have hsettles := settleTransaction_of_answers htrade heventId hdb
    dsimp only [amountTexts] at hsettles ⊢
    rw [findOrCreateParticipants_of_answers htrade hdb]
    rcases hopened : TradeSettlement.findOrCreateParticipants trade newIds db with
      ⟨db', message | accountIds⟩
    · rfl
    · rw [opened, hopened] at hsettles
      exact hsettles accountIds

end EtherTrade.SettlementReadings
