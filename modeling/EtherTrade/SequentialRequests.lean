import EtherTrade.AccountsDbHistory
import EtherTrade.UnwindingRelations

/-!
# Requests to the accounts database, one after the other

Balance calls and deliveries as inputs of a machine whose state is the committed
database. New accounts get ids that are not in use. What a request does to the balances
of a user, to the ledger and to the processed events is stated here for each kind.
-/

namespace EtherTrade.SequentialRequests

open DecimalNumbers KeyedRows AccountsSchema PostedJournals AccountsDbInvariants
open BalanceMutations BalanceMutationCorrectness TradeSettlement TradeSettlementCorrectness
open AccountsDbHistory UnwindingRelations

inductive BalanceMutationStatus where
  | ok
  | idempotentReplay
  | notFound
  | insufficientAvailable
  | insufficientLocked
  | idempotencyPayloadMismatch
  deriving DecidableEq, Repr

def status : BalanceMutationResult → BalanceMutationStatus
  | .ok _ => .ok
  | .idempotentReplay _ => .idempotentReplay
  | .notFound => .notFound
  | .insufficientAvailable _ => .insufficientAvailable
  | .insufficientLocked _ => .insufficientLocked
  | .idempotencyPayloadMismatch => .idempotencyPayloadMismatch

/-- A request, with the ids that accounts it opens will get. -/
inductive Request where
  | call (op : BalanceOperation) (newId : Uuid) (params : BalanceParams)
  | deliver (payload : KafkaBatchConsumerPayload) (newIds : Participant → Uuid)

/-- Generated ids differ from those in use and from each other. -/
def Request.Fresh (db : AccountsDb) : Request → Prop
  | .call _ newId _ => db.findById newId = none
  | .deliver _ newIds => (∀ q ∈ Participant.all, db.findById (newIds q) = none) ∧
      (Participant.all.map newIds).Nodup

instance (db : AccountsDb) (r : Request) : Decidable (r.Fresh db) := by
  cases r <;> unfold Request.Fresh <;> infer_instance

/-- The machine of the requests; a call answers with its status. -/
def accountsMachine : Machine AccountsDb Request (Option BalanceMutationStatus) where
  step db r :=
    if r.Fresh db then
      match r with
      | .call op newId params =>
        let result := mutateBalance op.mutation newId params db
        some (result.1, result.2.map status)
      | .deliver payload newIds => some ((handleMessage payload newIds db).1, none)
    else none

variable {db db' : AccountsDb} {userId : Uuid} {currency : Currency} {newId : Uuid}
  {op : BalanceOperation} {params : BalanceParams} {account : Account}

/-- The balances of a user's account, if there is one. -/
def accountBalances (db : AccountsDb) (userId : Uuid) (currency : Currency) : Option Balances :=
  (db.findByUserAndCurrency userId currency).map Account.balances

/-! ### Balance calls -/

/-- What a committed mutation does to the balances: those of its user and currency take its
change, from zero if the account is new, and no others move. -/
theorem accountBalances_commit {prepared : AccountsDb} (hdb : WellFormed db)
    (h : Prepared op.mutation params db account prepared) :
    accountBalances (op.mutation.commit params account prepared) userId currency =
      if (params.userId, params.currency) = (userId, currency) then
        some ((accountBalances db userId currency).getD 0 + op.mutation.change params.amount)
      else accountBalances db userId currency := by
  have hwf := h.wellFormed hdb
  have hfound := h.findById hdb
  have howner := h.owner
  rw [accountBalances, commit_eq hwf hfound, findByUserAndCurrency_insertLedgerTransactions,
    findByUserAndCurrency_adjust]
  split
  · next heq =>
    obtain ⟨rfl, rfl⟩ := Prod.mk.inj heq
    obtain ⟨hu, hc⟩ := Prod.mk.inj howner
    have hin := hwf.findByUserAndCurrency_of_id hfound
    rw [hu, hc] at hin
    have hbalances : (accountBalances db params.userId params.currency).getD 0 =
        account.balances := by
      cases h with
      | found hdbfound => simp [accountBalances, hdbfound]
      | opened _ hmissing => simp [accountBalances, hmissing]
    rw [hbalances, hin]
    simp [leg, totalChange_cons]
  · next hne =>
    have hsame : prepared.findByUserAndCurrency userId currency =
        db.findByUserAndCurrency userId currency := by
      cases h with
      | found => rfl
      | opened => simp [findByUserAndCurrency_insertAccount, hne]
    rw [hsame, accountBalances, Option.map_map]
    cases ha : db.findByUserAndCurrency userId currency with
    | none => rfl
    | some a =>
      have hid : a.id ≠ account.id := by
        intro he
        have hain : prepared.findById a.id = some a := hwf.findById_of_owner (hsame.trans ha)
        rw [he, hfound] at hain
        obtain rfl := Option.some.inj hain
        exact hne (howner.symm.trans (findByUserAndCurrency_owner ha))
      simp [leg, totalChange_cons, Ne.symm hid]

/-! ### Deliveries -/

/-- What opening an account for a user and currency, if there is none, leaves behind. -/
structure Opened (userId : Uuid) (currency : Currency) (newId : Uuid) (db db' : AccountsDb)
    (account : Account) : Prop where
  wellFormed : WellFormed db'
  found : db'.findByUserAndCurrency userId currency = some account
  stays : ∀ id a, db.findById id = some a → db'.findById id = some a
  fresh : ∀ id, db.findById id = none → id ≠ newId → db'.findById id = none
  balances : ∀ u c, accountBalances db' u c =
    if (userId, currency) = (u, c) then some ((accountBalances db u c).getD 0)
    else accountBalances db u c
  ledger : db'.ledgerTransactions = db.ledgerTransactions
  events : db'.processedEvents = db.processedEvents

theorem findOrCreate_spec (userId : Uuid) (currency : Currency) (hdb : WellFormed db)
    (hid : db.findById newId = none) :
    ∃ db' account, findOrCreate newId userId currency db = (db', .ok account) ∧
      Opened userId currency newId db db' account := by
  cases hfound : db.findByUserAndCurrency userId currency with
  | some a =>
    refine ⟨db, a, by simp [findOrCreate, hfound], hdb, hfound, fun _ _ h => h, fun _ h _ => h,
      fun u c => ?_, rfl, rfl⟩
    split
    · next heq =>
      obtain ⟨rfl, rfl⟩ := Prod.mk.inj heq
      simp [accountBalances, hfound]
    · rfl
  | none =>
    refine ⟨db.insertAccount (.zero newId userId currency), .zero newId userId currency,
      by simp [findOrCreate, hfound, hid], hdb.insertAccount hid hfound, ?_,
      fun _ _ h => findById_insertAccount_of_some h, fun id h hne => ?_, fun u c => ?_, rfl, rfl⟩
    · simp [findByUserAndCurrency_insertAccount, hfound]
    · simp [findById_insertAccount, h, Ne.symm hne]
    · split
      · next heq =>
        obtain ⟨rfl, rfl⟩ := Prod.mk.inj heq
        simp [accountBalances, findByUserAndCurrency_insertAccount, hfound]
      · next hne => simp [accountBalances, findByUserAndCurrency_insertAccount, hne]

/-- Opening one more account after those of some owners. -/
theorem Opened.balances_append {opened : AccountsDb} {owners : List (Uuid × Currency)}
    (h : Opened userId currency newId opened db' account)
    (hopened : ∀ u c, accountBalances opened u c =
      if (u, c) ∈ owners then some ((accountBalances db u c).getD 0) else accountBalances db u c)
    (u : Uuid) (c : Currency) : accountBalances db' u c =
      if (u, c) ∈ owners ++ [(userId, currency)] then some ((accountBalances db u c).getD 0)
      else accountBalances db u c := by
  rw [h.balances, hopened]
  by_cases hmem : (u, c) ∈ owners
  · simp [hmem]
  · by_cases howner : (userId, currency) = (u, c)
    · simp [hmem, howner]
    · simp [hmem, howner, Ne.symm howner]

/-- What `findOrCreate` for the four participants leaves behind. -/
structure ParticipantsOpened (trade : TradeExecutedEvent) (db db' : AccountsDb)
    (ids : Participant → Uuid) : Prop where
  wellFormed : WellFormed db'
  owned : Owned trade ids db'
  balances : ∀ u c, accountBalances db' u c =
    if (u, c) ∈ Participant.all.map trade.owner then some ((accountBalances db u c).getD 0)
    else accountBalances db u c
  ledger : db'.ledgerTransactions = db.ledgerTransactions
  events : db'.processedEvents = db.processedEvents

theorem findOrCreateParticipants_spec (trade : TradeExecutedEvent) {newIds : Participant → Uuid}
    (hdb : WellFormed db) (hfresh : ∀ q, db.findById (newIds q) = none)
    (hnodup : (Participant.all.map newIds).Nodup) :
    ∃ db' ids, findOrCreateParticipants trade newIds db = (db', .ok ids) ∧
      ParticipantsOpened trade db db' ids := by
  have hne : ∀ q r, q ≠ r → newIds q ≠ newIds r := by
    simp only [Participant.all, List.map_cons, List.map_nil, List.nodup_cons, List.mem_cons,
      List.not_mem_nil, or_false, not_or] at hnodup
    intro q r hqr
    cases q <;> cases r <;> simp_all [eq_comm]
  obtain ⟨db₁, a₁, h₁, o₁⟩ := findOrCreate_spec (trade.owner .buyerQuote).1
    (trade.owner .buyerQuote).2 hdb (hfresh .buyerQuote)
  obtain ⟨db₂, a₂, h₂, o₂⟩ := findOrCreate_spec (trade.owner .buyerBase).1
    (trade.owner .buyerBase).2 o₁.wellFormed
    (o₁.fresh _ (hfresh .buyerBase) (hne _ _ (by decide)))
  obtain ⟨db₃, a₃, h₃, o₃⟩ := findOrCreate_spec (trade.owner .sellerQuote).1
    (trade.owner .sellerQuote).2 o₂.wellFormed
    (o₂.fresh _ (o₁.fresh _ (hfresh .sellerQuote) (hne _ _ (by decide))) (hne _ _ (by decide)))
  obtain ⟨db₄, a₄, h₄, o₄⟩ := findOrCreate_spec (trade.owner .sellerBase).1
    (trade.owner .sellerBase).2 o₃.wellFormed
    (o₃.fresh _ (o₂.fresh _ (o₁.fresh _ (hfresh .sellerBase) (hne _ _ (by decide)))
      (hne _ _ (by decide))) (hne _ _ (by decide)))
  have hids : ∃ ids, findOrCreateParticipants trade newIds db = (db₄, .ok ids) ∧
      ids .buyerQuote = a₁.id ∧ ids .buyerBase = a₂.id ∧ ids .sellerQuote = a₃.id ∧
        ids .sellerBase = a₄.id := by
    simp only [findOrCreateParticipants, h₁, h₂, h₃, h₄]
    exact ⟨_, rfl, rfl, rfl, rfl, rfl⟩
  obtain ⟨ids, hids, hid₁, hid₂, hid₃, hid₄⟩ := hids
  have hfound : ∀ {d : AccountsDb} {q : Participant} {a : Account}, WellFormed d →
      d.findByUserAndCurrency (trade.owner q).1 (trade.owner q).2 = some a →
        d.findById a.id = some a ∧ a.owner = trade.owner q :=
    fun hd ha => ⟨hd.findById_of_owner ha, findByUserAndCurrency_owner ha⟩
  obtain ⟨hf₁, ho₁⟩ := hfound o₁.wellFormed o₁.found
  obtain ⟨hf₂, ho₂⟩ := hfound o₂.wellFormed o₂.found
  obtain ⟨hf₃, ho₃⟩ := hfound o₃.wellFormed o₃.found
  obtain ⟨hf₄, ho₄⟩ := hfound o₄.wellFormed o₄.found
  refine ⟨db₄, ids, hids, o₄.wellFormed, ?_, fun u c => ?_, ?_, ?_⟩
  · intro q
    cases q
    · exact ⟨a₁, hid₁ ▸ o₄.stays _ _ (o₃.stays _ _ (o₂.stays _ _ hf₁)), ho₁⟩
    · exact ⟨a₂, hid₂ ▸ o₄.stays _ _ (o₃.stays _ _ hf₂), ho₂⟩
    · exact ⟨a₃, hid₃ ▸ o₄.stays _ _ hf₃, ho₃⟩
    · exact ⟨a₄, hid₄ ▸ hf₄, ho₄⟩
  · have hnone : ∀ u c, accountBalances db u c = if (u, c) ∈ ([] : List (Uuid × Currency)) then
        some ((accountBalances db u c).getD 0) else accountBalances db u c := fun u c => rfl
    exact o₄.balances_append (o₃.balances_append (o₂.balances_append (o₁.balances_append hnone))) u c
  · rw [o₄.ledger, o₃.ledger, o₂.ledger, o₁.ledger]
  · rw [o₄.events, o₃.events, o₂.events, o₁.events]

/-- The texts of the settlement can be read as numbers, also behind minus signs. -/
def readable (trade : TradeExecutedEvent) : Bool :=
  let amounts := calculateSettlementAmounts trade
  (figures amounts).isSome && (buyerLockedDeduction amounts).withMinus.toNumeric.isSome &&
    amounts.baseQuantity.withMinus.toNumeric.isSome

/-- Whether the writes of a settlement succeed depends on its message alone. -/
theorem settlementWrites_isSome (trade : TradeExecutedEvent) (ids : Participant → Uuid)
    (locked : List Account) : (settlementWrites trade ids locked).isSome = readable trade := by
  simp only [settlementWrites, settlementLegs_eq, readable]
  cases hf : figures (calculateSettlementAmounts trade) with
  | none => rfl
  | some f =>
    obtain ⟨hcost, hquantity, hsurplus⟩ := figures_eq_some hf
    have hzero : NumericText.zero.toNumeric = some 0 := rfl
    cases hdeduction : (buyerLockedDeduction (calculateSettlementAmounts trade)).withMinus.toNumeric <;>
      cases hdebit : (calculateSettlementAmounts trade).baseQuantity.withMinus.toNumeric <;>
        simp [buildSettlementLedgerParams, SettlementLedgerEntry.toLedgerTransaction, hcost, hquantity,
          hsurplus, hzero, hdeduction, hdebit]

/-- What a delivery does: nothing to a message it does not accept; else it opens the
accounts of the trade and, if the event is new and its texts can be read, settles it. -/
theorem handleMessage_spec {payload : KafkaBatchConsumerPayload} {newIds : Participant → Uuid}
    (hdb : WellFormed db) (hfresh : (Request.deliver payload newIds).Fresh db) :
    match acceptMessage payload with
    | .inl _ => (handleMessage payload newIds db).1 = db
    | .inr (envelope, trade) => ∃ opened ids, ParticipantsOpened trade db opened ids ∧
        if db.isEventProcessed envelope.eventId = false ∧ readable trade = true then
          ∃ f writes, figures (calculateSettlementAmounts trade) = some f ∧
            Settlement envelope trade ids writes opened ∧
            (handleMessage payload newIds db).1 = settledDb envelope trade ids f opened
        else (handleMessage payload newIds db).1 = opened := by
  cases haccept : acceptMessage payload with
  | inl outcome => simp [handleMessage, haccept]
  | inr accepted =>
    obtain ⟨envelope, trade⟩ := accepted
    obtain ⟨opened, ids, hopened, ho⟩ := findOrCreateParticipants_spec trade hdb
      (fun q => hfresh.1 q q.mem_all) hfresh.2
    refine ⟨opened, ids, ho, ?_⟩
    have hevent : opened.isEventProcessed envelope.eventId = db.isEventProcessed envelope.eventId := by
      simp [AccountsDb.isEventProcessed, AccountsDb.findProcessedEvent, ho.events]
    have hrun : (handleMessage payload newIds db).1 =
        (settleTransaction envelope trade ids opened).1 := by
      simp [handleMessage, haccept, hopened]
    have hlocked : (Participant.all.all fun q =>
        (lookup Account.id (selectLocked ids opened) (ids q)).isSome) = true := by
      simp only [List.all_eq_true]
      intro q _
      obtain ⟨a, ha, -⟩ := ho.owned q
      simp [lookup_selectLocked, ha]
    have hreadable := settlementWrites_isSome trade ids (selectLocked ids opened)
    rw [hrun, settleTransaction, hevent]
    by_cases hprocessed : db.isEventProcessed envelope.eventId = true
    · simp [hprocessed]
    · rw [Bool.not_eq_true] at hprocessed
      simp only [hprocessed, Bool.false_eq_true, if_false, hlocked, if_true, true_and]
      cases hwrites : settlementWrites trade ids (selectLocked ids opened) with
      | none =>
        rw [hwrites] at hreadable
        simp [← hreadable]
      | some writes =>
        rw [hwrites] at hreadable
        rw [hprocessed] at hevent
        have hs : Settlement envelope trade ids writes opened :=
          ⟨acceptMessage_users haccept, by simpa [AccountsDb.isEventProcessed] using hevent,
            ho.owned, hwrites⟩
        obtain ⟨f, hf, -, heq⟩ := hs.commit_eq ho.wellFormed
        simp only [← hreadable, Option.isSome_some, if_true]
        exact ⟨f, writes, hf, hs, heq⟩

/-- What a settlement does to the balances of a user in a currency. -/
theorem accountBalances_settledDb {envelope : DomainEventEnvelope} {trade : TradeExecutedEvent}
    {ids : Participant → Uuid} {writes : SettlementWrites} (hdb : WellFormed db)
    (hs : Settlement envelope trade ids writes db) (f : Figures) :
    accountBalances (settledDb envelope trade ids f db) userId currency =
      (accountBalances db userId currency).map fun b =>
        b + (legOrder.map fun p => if trade.owner p = (userId, currency) then f.change p else 0).sum := by
  rw [accountBalances, settledDb, findByUserAndCurrency_markEventProcessed,
    findByUserAndCurrency_insertLedgerTransactions, findByUserAndCurrency_adjust, accountBalances]
  cases ha : db.findByUserAndCurrency userId currency with
  | none => rfl
  | some a =>
    have howner := findByUserAndCurrency_owner ha
    simp [totalChange_legs hdb hs f (lookup_mem ha).1, howner]

/-! ### Steps of the machine -/

/-- A request keeps the schema constraints and appends to the ledger; rows with a key are
those of a balance call. -/
theorem accountsMachine_ledger {r : Request} {answer : Option BalanceMutationStatus}
    (hdb : WellFormed db) (h : accountsMachine.step db r = some (db', answer)) :
    WellFormed db' ∧ ∃ ts, db'.ledgerTransactions = db.ledgerTransactions ++ ts ∧
      ∀ t ∈ ts, ∀ key, t.idempotencyKey = some key → ∃ op newId params account,
        r = .call op newId params ∧ account.owner = (params.userId, params.currency) ∧
          t = op.mutation.ledgerTransaction params account := by
  simp only [accountsMachine] at h
  split at h
  · next hfresh =>
    cases r with
    | call op newId params =>
      obtain ⟨hnext, -⟩ := Prod.mk.inj (Option.some.inj h)
      have hresult : mutateBalance op.mutation newId params db = (db', _) := Prod.ext hnext rfl
      rcases mutateBalance_cases hresult with
        ⟨rfl, -⟩ | ⟨account, prepared, hkey, hprepared, rfl, -⟩
      · exact ⟨hdb, [], by simp, by simp⟩
      · refine ⟨wellFormed_commit hkey hprepared hdb,
          [op.mutation.ledgerTransaction params (op.mutation.updatedAccount params account)], ?_,
          ?_⟩
        · simp only [BalanceMutation.commit, AccountsDb.insertLedgerTransactions,
            AccountsDb.install, hprepared.ledgerTransactions_eq]
        · intro t ht key htk
          obtain rfl := List.mem_singleton.mp ht
          exact ⟨op, newId, params, _, rfl, by simpa [BalanceMutation.updatedAccount] using
            hprepared.owner, rfl⟩
    | deliver payload newIds =>
      obtain ⟨rfl, -⟩ := Prod.mk.inj (Option.some.inj h)
      have hspec := handleMessage_spec hdb hfresh
      cases haccept : acceptMessage payload with
      | inl outcome =>
        simp only [haccept] at hspec
        simp only [hspec]
        exact ⟨hdb, [], by simp, by simp⟩
      | inr accepted =>
        obtain ⟨envelope, trade⟩ := accepted
        simp only [haccept] at hspec
        obtain ⟨opened, ids, hopened, hspec⟩ := hspec
        split at hspec
        · obtain ⟨f, writes, -, hs, heq⟩ := hspec
          simp only [heq]
          refine ⟨wellFormed_settledDb hs hopened.wellFormed, _,
            congrArg (· ++ _) hopened.ledger, ?_⟩
          intro t ht key htk
          obtain ⟨q, -, rfl⟩ := List.mem_map.mp ht
          cases htk
        · simp only [hspec]
          exact ⟨hopened.wellFormed, [], by simp [hopened.ledger], by simp⟩
  · cases h

end EtherTrade.SequentialRequests
