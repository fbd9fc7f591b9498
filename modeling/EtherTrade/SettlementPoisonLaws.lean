import EtherTrade.KafkaConsumerLaws
import EtherTrade.TradesSettlementConsumer

/-!
# Messages that cannot be settled

A message that fails in every state of the database goes to the dead letter queue when it
fails the schema check. Past that check the text of the error decides, and it has one of
the markers of a poison pill only if the message brings the marker along to a trade that is
settled. Every other such message is read again and again, and nothing behind it is.
-/

namespace EtherTrade.SettlementPoisonLaws

open RecordedCalls Recorded JsonValues KafkaConsumer KafkaConsumerLaws
open TradesSettlementConsumer AccountsSchema
open TradeSettlement (Participant tradeExecuted)

variable {α β : Type} {s : Surroundings} {batch : Batch} {j : ℕ} {message : KafkaMessage}
  {error : Thrown} {a b text : String} {value : Json}

/-- The message cannot be handled in this state. -/
def Fails (s : Surroundings) (payload : KafkaBatchConsumerPayload) : Prop :=
  ∃ error, handleMessage s payload = .error error

/-- The broker and the producer do what they are asked to. -/
structure BrokerAnswers (outcome : Outcome) : Prop where
  isRunning : outcome.isRunning = true
  isStale : outcome.isStale = false
  heartbeat : outcome.heartbeat = .ok ()
  send : outcome.send = .ok ()
  commit : outcome.commitAfterDlq = .ok ()

/-- The loop that has reached a message sends it to the dead letter topic, resolves its
offset and goes on to the next one. -/
def Routed (s : Surroundings) (batch : Batch) (j : ℕ) (message : KafkaMessage) : Prop :=
  ∀ outcomes : ℕ → Outcome, BrokerAnswers (outcomes j) →
    (outcomes j).handleMessage = handleMessage s (batch.payload message) →
    ∃ entries, DeadLettered batch entries j ∧ Resolves entries j message.offset ∧
      (processMessages batch outcomes j (batch.messages.drop j)).calls =
        entries ++ (processMessages batch outcomes (j + 1) (batch.messages.drop (j + 1))).calls

/-- The error counts as a poison pill. -/
def Marked (error : Thrown) : Prop := isPoisonPillError error = .ok true

instance : Decidable (Marked error) := inferInstanceAs (Decidable (_ = _))

/-- The text has none of the markers. -/
def Unmarked (text : String) : Prop := poisonMarkers.all (!includes text ·) = true

instance : Decidable (Unmarked text) := inferInstanceAs (Decidable (_ = _))

/-- A text inside the value has one of the markers. -/
def MentionsMarker (value : Json) : Prop := ∃ text ∈ value.strings, ¬Unmarked text

/-- A computation that throws no poison pill. -/
def Harmless (r : Except Thrown α) : Prop := ∀ error, r = .error error → ¬Marked error

/-- No error of the library has a marker. -/
structure PlainNumbers (numbers : BigNumbers) : Prop where
  construct value : Harmless (numbers.construct value)
  multipliedBy a b : Harmless (numbers.multipliedBy a b)
  minus a b : Harmless (numbers.minus a b)
  isGreaterThan a b : Harmless (numbers.isGreaterThan a b)
  toFixed a : Harmless (numbers.toFixed a)

/-- No text of the surroundings has a marker. -/
structure Plain (s : Surroundings) : Prop where
  numberText n : Unmarked (s.numberText n)
  numbers : PlainNumbers s.numbers
  findByUserAndCurrency userId currency : Harmless (s.findByUserAndCurrency userId currency)
  findFallback userId currency : Harmless (s.findFallback userId currency)
  begin : Harmless s.begin
  isEventProcessed eventId : Harmless (s.isEventProcessed eventId)
  lockAccounts accountIds : Harmless (s.lockAccounts accountIds)
  writeSettlement envelope amounts accountIds :
    Harmless (s.writeSettlement envelope amounts accountIds)
  commit : Harmless s.commit

theorem Harmless.ok (a : α) : Harmless (.ok a : Except Thrown α) := nofun

theorem Harmless.bind {r : Except Thrown α} {f : α → Except Thrown β} (hr : Harmless r)
    (hf : ∀ a, r = .ok a → Harmless (f a)) : Harmless (r >>= f) := by
  rcases r with error | a
  · rintro _ ⟨⟩
    exact hr error rfl
  · exact hf a rfl

theorem exists_of_bind_ok {r : Except Thrown α} {f : α → Except Thrown β} {b : β}
    (h : r >>= f = .ok b) : ∃ a, r = .ok a ∧ f a = .ok b := by
  rcases r with error | a
  · cases h
  · exact ⟨a, rfl, h⟩

theorem marked_error {stack : Option String} : Marked (.error text stack) ↔ ¬Unmarked text := by
  simp [Marked, Unmarked, isPoisonPillError, Thrown.truthy, stringifyUnknownError]

theorem Harmless.thrown (h : Unmarked text) : Harmless (thrown text : Except Thrown α) := by
  rintro _ ⟨⟩ hmarked
  exact marked_error.1 hmarked h

theorem Harmless.discard {r : Except Thrown α} (hr : Harmless r) : Harmless (discard r) := by
  rcases r with error | a
  · rintro _ ⟨⟩
    exact hr error rfl
  · exact .ok _

theorem Harmless.forM {f : α → Except Thrown PUnit} (hf : ∀ a, Harmless (f a)) (l : List α) :
    Harmless (l.forM f) := by
  induction l with
  | nil => exact .ok _
  | cons a l ih => exact (hf a).bind fun _ _ => ih

/-- A marker across the seam of two texts would begin at the end of the first and end at
the beginning of the second. -/
theorem unmarked_append (ha : Unmarked a) (hb : Unmarked b)
    (hseam : ∀ marker ∈ poisonMarkers, ∀ l₁ l₂, l₁ ≠ [] → l₂ ≠ [] → marker.toList = l₁ ++ l₂ →
      l₁ <:+ a.toList → ¬l₂ <+: b.toList) : Unmarked (a ++ b) := by
  simp only [Unmarked, includes, List.all_eq_true, Bool.not_eq_true', decide_eq_false_iff_not,
    String.toList_append] at ha hb ⊢
  intro marker hmarker hinside
  rcases List.infix_append_iff_ne_nil.1 hinside with h | h | ⟨l₁, l₂, hl₁, hl₂, hcut, hsuf, hpre⟩
  · exact ha marker hmarker h
  · exact hb marker hmarker h
  · exact hseam marker hmarker l₁ l₂ hl₁ hl₂ hcut hsuf hpre

/-- The text has no letter that a marker begins with. -/
def LacksInitials (text : String) : Prop := ∀ c ∈ text.toList, c ≠ 'S' ∧ c ≠ 'U' ∧ c ≠ 'I'

/-- A text is a literal list of letters here, which is faster to search than the text. -/
theorem LacksInitials.ofList {l : List Char}
    (h : (l.all fun c => c != 'S' && c != 'U' && c != 'I') = true) :
    LacksInitials (String.ofList l) := by
  rw [LacksInitials, String.toList_ofList]
  simpa [and_assoc] using h

theorem exists_initial {marker : String} (h : marker ∈ poisonMarkers) :
    ∃ c l, marker.toList = c :: l ∧ (c = 'S' ∨ c = 'U' ∨ c = 'I') := by
  simp only [poisonMarkers, List.mem_cons, List.not_mem_nil, or_false] at h
  rcases h with rfl | rfl | rfl | rfl <;> exact ⟨_, _, String.toList_ofList, by decide⟩

/-- No marker begins inside such a text. -/
theorem LacksInitials.eq_nil (h : LacksInitials a) {marker : String} {l : List Char}
    (hmarker : marker ∈ poisonMarkers) (hbegins : l <+: marker.toList) (hinside : l ⊆ a.toList) :
    l = [] := by
  obtain ⟨c, rest, hcons, hinitial⟩ := exists_initial hmarker
  rw [hcons, List.prefix_cons_iff] at hbegins
  rcases hbegins with hnil | ⟨l', rfl, -⟩
  · exact hnil
  · obtain ⟨hS, hU, hI⟩ := h c (hinside List.mem_cons_self)
    exact absurd hinitial (by simp [hS, hU, hI])

theorem LacksInitials.unmarked (h : LacksInitials a) : Unmarked a := by
  simp only [Unmarked, includes, List.all_eq_true, Bool.not_eq_true', decide_eq_false_iff_not]
  intro marker hmarker hinside
  obtain ⟨c, rest, hcons, -⟩ := exists_initial hmarker
  have hnil : marker.toList = [] := h.eq_nil hmarker List.prefix_rfl hinside.subset
  rw [hcons] at hnil
  cases hnil

theorem LacksInitials.unmarked_append (h : LacksInitials a) (hb : Unmarked b) :
    Unmarked (a ++ b) := by
  refine SettlementPoisonLaws.unmarked_append h.unmarked hb
    fun marker hmarker l₁ l₂ hl₁ _ hcut hsuf _ => ?_
  exact absurd (h.eq_nil hmarker (hcut ▸ List.prefix_append ..) hsuf.subset) hl₁

/-- No marker ends in the text, whatever follows it. -/
def ClosedLeft (text : String) : Prop := poisonMarkers.all (fun marker =>
  marker.toList.tails.all fun l => l = [] || l = marker.toList ||
    !decide (l <+: text.toList) && !decide (text.toList <+: l)) = true

instance : Decidable (ClosedLeft text) := inferInstanceAs (Decidable (_ = _))

theorem ClosedLeft.unmarked_append {c : String} (h : ClosedLeft b) (ha : Unmarked a)
    (hb : Unmarked (b ++ c)) : Unmarked (a ++ (b ++ c)) := by
  refine SettlementPoisonLaws.unmarked_append ha hb
    fun marker hmarker l₁ l₂ hl₁ hl₂ hcut _ hpre => ?_
  have hclosed := List.all_eq_true.1 (List.all_eq_true.1 h marker hmarker) l₂ (by simp [hcut])
  rw [String.toList_append] at hpre
  rcases List.prefix_or_prefix_of_prefix hpre (List.prefix_append ..) with hpre | hpre <;>
    simp_all

theorem unmarked_accountCreateFailed (ha : Unmarked a) (hb : Unmarked b) :
    Unmarked (accountCreateFailed a b) := by
  have hcurrency : Unmarked (" and currency: " ++ b) :=
    LacksInitials.unmarked_append (.ofList rfl) hb
  have huser : Unmarked (a ++ (" and currency: " ++ b)) :=
    ClosedLeft.unmarked_append (by decide +kernel) ha hcurrency
  exact LacksInitials.unmarked_append (.ofList rfl) huser

theorem unmarked_locksMissing (ha : Unmarked a) : Unmarked (locksMissing a) :=
  LacksInitials.unmarked_append (.ofList rfl) ha

theorem unmarked_ofList {l : List Char}
    (h : (l.all fun c => c != 'S' && c != 'U' && c != 'I') = true) : Unmarked (String.ofList l) :=
  (LacksInitials.ofList h).unmarked

theorem unmarked_empty : Unmarked "" := unmarked_ofList rfl

theorem unmarked_undefined : Unmarked "undefined" := unmarked_ofList rfl

theorem unmarked_intercalate {texts : List String} (h : ∀ text ∈ texts, Unmarked text) :
    Unmarked (",".intercalate texts) := by
  induction texts with
  | nil => exact unmarked_empty
  | cons text texts ih =>
    obtain ⟨htext, htexts⟩ := List.forall_mem_cons.1 h
    cases texts with
    | nil => rwa [String.intercalate_singleton]
    | cons text' texts =>
      have htail : Unmarked ("," ++ ",".intercalate (text' :: texts)) :=
        LacksInitials.unmarked_append (.ofList rfl) (ih htexts)
      rw [String.intercalate_cons_cons, String.append_assoc]
      exact ClosedLeft.unmarked_append (by decide +kernel) htext htail

mutual

/-- The text of a value has no marker when no text inside it has one. -/
theorem unmarked_toText (hs : Plain s) {value : Json} (h : ∀ text ∈ value.strings, Unmarked text)
    {text : String} (htext : value.toText s.numberText = some text) : Unmarked text := by
  cases value with
  | null =>
    obtain rfl := Option.some_inj.1 htext
    exact unmarked_ofList rfl
  | bool value =>
    obtain rfl := Option.some_inj.1 htext
    cases value with
    | false => exact unmarked_ofList rfl
    | true => exact unmarked_ofList rfl
  | number value =>
    obtain rfl := Option.some_inj.1 htext
    exact hs.numberText value
  | string text' =>
    obtain rfl := Option.some_inj.1 htext
    exact h text' (List.mem_singleton_self text')
  | array items =>
    obtain ⟨texts, htexts, rfl⟩ := Option.map_eq_some_iff.1 htext
    exact unmarked_intercalate (unmarked_itemTexts hs h htexts)
  | object fields =>
    rw [Json.toText] at htext
    split at htext
    · cases htext
    · obtain rfl := Option.some_inj.1 htext
      exact unmarked_ofList rfl

theorem unmarked_itemTexts (hs : Plain s) {items : List Json}
    (h : ∀ text ∈ Json.itemStrings items, Unmarked text) {texts : List String}
    (htexts : Json.itemTexts s.numberText items = some texts) : ∀ text ∈ texts, Unmarked text := by
  cases items with
  | nil =>
    obtain rfl := Option.some_inj.1 htexts
    exact nofun
  | cons item items =>
    obtain ⟨hitem, hitems⟩ := List.forall_mem_append.1 h
    rw [Json.itemTexts.eq_def] at htexts
    split at htexts
    · simp at *
    · rename_i hnull
      obtain ⟨rfl, rfl⟩ := List.cons.inj hnull
      obtain ⟨texts, htail, rfl⟩ := Option.map_eq_some_iff.1 htexts
      exact List.forall_mem_cons.2 ⟨unmarked_empty, unmarked_itemTexts hs hitems htail⟩
    · rename_i hcons
      obtain ⟨rfl, rfl⟩ := List.cons.inj hcons
      obtain ⟨text, htext, htexts⟩ := Option.bind_eq_some_iff.1 htexts
      obtain ⟨texts, htail, heq⟩ := Option.bind_eq_some_iff.1 htexts
      obtain rfl := Option.some_inj.1 heq
      exact List.forall_mem_cons.2
        ⟨unmarked_toText hs hitem htext, unmarked_itemTexts hs hitems htail⟩

end

theorem strings_field {fields : List (String × Json)} {field : String × Json}
    (h : field ∈ fields) : field.2.strings ⊆ Json.fieldStrings fields := by
  induction fields with
  | nil => cases h
  | cons head fields ih =>
    obtain ⟨name, value⟩ := head
    rw [Json.fieldStrings]
    rcases List.mem_cons.1 h with rfl | htail
    · exact List.subset_append_left ..
    · exact List.Subset.trans (ih htail) (List.subset_append_right ..)

/-- No text inside the value has a marker. -/
def AllUnmarked (value : Json) : Prop := ∀ text ∈ value.strings, Unmarked text

theorem AllUnmarked.get {name : String} {field : Json} (h : AllUnmarked value)
    (hget : value.get name = some field) : AllUnmarked field := by
  cases value with
  | object fields =>
    obtain ⟨field, hfind, rfl⟩ := Option.map_eq_some_iff.1 hget
    have hmem := List.mem_reverse.1 (List.mem_of_find?_eq_some hfind)
    exact fun text htext => h text (strings_field hmem htext)
  | _ => cases hget

theorem harmless_text (field : Option Json) : Harmless (s.text field) := by
  rw [Surroundings.text.eq_def]
  split
  · exact .ok _
  · split
    · exact .ok _
    · exact .thrown (unmarked_ofList rfl)

theorem unmarked_text (hs : Plain s) {name : String} (hvalue : AllUnmarked value)
    (htext : s.text (value.get name) = .ok text) : Unmarked text := by
  rw [Surroundings.text.eq_def] at htext
  split at htext
  · obtain rfl := Except.ok.inj htext
    exact unmarked_undefined
  · rename_i field hget
    split at htext
    · rename_i text' htoText
      obtain rfl := Except.ok.inj htext
      exact unmarked_toText hs (hvalue.get hget) htoText
    · cases htext

theorem Unmarked.of_infix (h : Unmarked text) (hinside : a.toList <:+: text.toList) :
    Unmarked a := by
  simp only [Unmarked, includes, List.all_eq_true, Bool.not_eq_true',
    decide_eq_false_iff_not] at h ⊢
  exact fun marker hmarker hmem => h marker hmarker (hmem.trans hinside)

theorem Unmarked.left (h : Unmarked (a ++ b)) : Unmarked a :=
  h.of_infix (by simpa only [String.toList_append] using List.infix_append_left)

theorem not_unmarked_marker (h : a ∈ poisonMarkers) : ¬Unmarked a := by
  intro hunmarked
  simp only [Unmarked, includes, List.all_eq_true, Bool.not_eq_true',
    decide_eq_false_iff_not] at hunmarked
  exact hunmarked a h List.infix_rfl

theorem infix_intercalate {sep l : List Char} {ls : List (List Char)} (h : l ∈ ls) :
    l <:+: sep.intercalate ls := by
  induction ls with
  | nil => cases h
  | cons head ls ih =>
    cases ls with
    | nil =>
      rw [List.mem_singleton.1 h, List.intercalate_singleton]
    | cons head' ls =>
      rw [List.intercalate_cons_cons]
      rcases List.mem_cons.1 h with rfl | htail
      · exact List.infix_append_of_infix_left (List.infix_append_left)
      · exact List.infix_append_of_infix_right (ih htail)

/-- The currencies of a symbol without markers have none. -/
theorem unmarked_splitSymbol {symbol : Option Json} {base : String} {quote : Option String}
    (h : ∀ field ∈ symbol, AllUnmarked field) (hsplit : splitSymbol symbol = .ok (base, quote)) :
    Unmarked base ∧ Unmarked (quote.getD "undefined") := by
  rw [splitSymbol.eq_def] at hsplit
  split at hsplit
  · cases hsplit
  · cases hsplit
  · rename_i text
    obtain ⟨rfl, rfl⟩ := Prod.mk.inj (Except.ok.inj hsplit)
    have htext : Unmarked text := h _ rfl text (List.mem_singleton_self text)
    have hparts : ∀ part ∈ (text.toList.splitOn '_').map String.ofList, Unmarked part := by
      intro part hpart
      obtain ⟨chars, hchars, rfl⟩ := List.mem_map.1 hpart
      have hinside : chars <:+: ['_'].intercalate (text.toList.splitOn '_') :=
        infix_intercalate hchars
      rw [List.intercalate_splitOn] at hinside
      exact htext.of_infix (by rwa [String.toList_ofList])
    refine ⟨?_, ?_⟩
    · rcases hnil : (text.toList.splitOn '_').map String.ofList with _ | ⟨part, parts⟩
      · exact unmarked_empty
      · exact hparts part (hnil ▸ List.mem_cons_self)
    · rcases hget : ((text.toList.splitOn '_').map String.ofList)[1]? with _ | part
      · exact unmarked_undefined
      · exact hparts part (List.mem_of_getElem? hget)
  · cases hsplit

section Settlement

variable (hs : Plain s) {envelope trade : Json}

include hs in
theorem harmless_findOrCreate {name : String} {currency : Option String}
    (htrade : AllUnmarked trade) (hcurrency : Unmarked (currency.getD "undefined")) :
    Harmless (findOrCreate s (trade.get name) currency) := by
  refine (hs.findByUserAndCurrency _ _).bind fun existing _ => ?_
  rcases existing with _ | existing
  · simp only
    split
    · exact .ok _
    · refine (hs.findFallback _ _).bind fun fallback _ => ?_
      rcases fallback with _ | fallback
      · refine (harmless_text _).bind fun userText huserText => ?_
        exact .thrown (unmarked_accountCreateFailed (unmarked_text hs htrade huserText) hcurrency)
      · exact .ok _
  · exact .ok _

include hs in
theorem harmless_findOrCreateParticipants {base : String} {quote : Option String}
    (htrade : AllUnmarked trade) (hbase : Unmarked base)
    (hquote : Unmarked (quote.getD "undefined")) :
    Harmless (findOrCreateParticipants s trade base quote) := by
  have haccount (p : Participant) :
      Harmless (findOrCreate s (owner trade base quote p).1 (owner trade base quote p).2) := by
    cases p
    · exact harmless_findOrCreate hs htrade hquote
    · exact harmless_findOrCreate hs htrade hbase
    · exact harmless_findOrCreate hs htrade hquote
    · exact harmless_findOrCreate hs htrade hbase
  refine (Harmless.forM (fun p => (haccount p).discard) _).bind fun _ _ => ?_
  refine (haccount _).bind fun _ _ => (haccount _).bind fun _ _ => ?_
  exact (haccount _).bind fun _ _ => (haccount _).bind fun _ _ => .ok _

include hs in
theorem harmless_settleTransaction {amounts : SettlementAmounts} {accountIds : Participant → Uuid}
    (htrade : AllUnmarked trade) :
    Harmless (settleTransaction s envelope trade amounts accountIds) := by
  have hlog (name : String) : Harmless (discard (s.text (trade.get name))) :=
    (harmless_text _).discard
  refine hs.begin.bind fun _ _ => (hs.isEventProcessed _).bind fun processed _ => ?_
  rcases processed with _ | _
  · refine (hs.lockAccounts _).bind fun locked _ => ?_
    have hwrites := (hs.writeSettlement envelope amounts accountIds).bind fun _ _ =>
      (hlog "tradeId").bind fun _ _ => (hlog "quantity").bind fun _ _ =>
        (hlog "price").bind fun _ _ => hs.commit
    split
    · refine (harmless_text _).bind fun text htext => ?_
      exact (Harmless.thrown (unmarked_locksMissing (unmarked_text hs htrade htext))).bind
        fun _ _ => hwrites
    · exact hwrites
  · exact (harmless_text _).discard.bind fun _ _ => hs.commit

theorem harmless_splitSymbol (symbol : Option Json) : Harmless (splitSymbol symbol) := by
  rw [splitSymbol.eq_def]
  split
  · exact .thrown (unmarked_ofList rfl)
  · exact .thrown (unmarked_ofList rfl)
  · exact .ok _
  · exact .thrown (unmarked_ofList rfl)

theorem harmless_calculateSettlementAmounts {numbers : BigNumbers} (hn : PlainNumbers numbers) :
    Harmless (calculateSettlementAmounts numbers trade) := by
  refine (harmless_splitSymbol _).bind fun _ _ => (hn.construct _).bind fun price _ => ?_
  refine (hn.construct _).bind fun quantity _ => (hn.construct _).bind fun limit _ => ?_
  refine (hn.multipliedBy _ _).bind fun _ _ => (hn.toFixed _).bind fun quoteCost _ => ?_
  refine (hn.toFixed _).bind fun baseQuantity _ => (hn.isGreaterThan _ _).bind fun greater _ => ?_
  cases greater with
  | false => exact .ok _
  | true =>
    refine (hn.minus _ _).bind fun _ _ => (hn.multipliedBy _ _).bind fun _ _ => ?_
    exact (hn.toFixed _).bind fun _ _ => .ok _

/-- The currencies of the amounts are those of the symbol. -/
theorem splitSymbol_of_amounts {numbers : BigNumbers} {amounts : SettlementAmounts}
    (h : calculateSettlementAmounts numbers trade = .ok amounts) :
    splitSymbol (trade.get "symbol") = .ok (amounts.baseCurrency, amounts.quoteCurrency) := by
  obtain ⟨⟨base, quote⟩, hsplit, h⟩ := exists_of_bind_ok h
  obtain ⟨price, -, h⟩ := exists_of_bind_ok h
  obtain ⟨quantity, -, h⟩ := exists_of_bind_ok h
  obtain ⟨limit, -, h⟩ := exists_of_bind_ok h
  obtain ⟨cost, -, h⟩ := exists_of_bind_ok h
  obtain ⟨quoteCost, -, h⟩ := exists_of_bind_ok h
  obtain ⟨baseQuantity, -, h⟩ := exists_of_bind_ok h
  obtain ⟨greater, -, h⟩ := exists_of_bind_ok h
  cases greater with
  | false =>
    cases h
    exact hsplit
  | true =>
    obtain ⟨surplus, -, h⟩ := exists_of_bind_ok h
    obtain ⟨product, -, h⟩ := exists_of_bind_ok h
    obtain ⟨surplusRefund, -, h⟩ := exists_of_bind_ok h
    cases h
    exact hsplit

include hs in
theorem harmless_settleTrade (htrade : AllUnmarked trade) :
    Harmless (settleTrade s envelope trade) := by
  refine (harmless_calculateSettlementAmounts hs.numbers).bind fun amounts hamounts => ?_
  obtain ⟨hbase, hquote⟩ := unmarked_splitSymbol (fun _ hget => htrade.get hget)
    (splitSymbol_of_amounts hamounts)
  refine (harmless_findOrCreateParticipants hs htrade hbase hquote).bind fun accountIds _ => ?_
  exact harmless_settleTransaction hs htrade

end Settlement

/-- The trade of a message that passes the schema check. -/
def tradeOf (payload : KafkaBatchConsumerPayload) : Json :=
  (payload.value.get "payload").getD .null

/-- The message is one of a trade between two users, with a symbol that is a text. -/
def Settles (payload : KafkaBatchConsumerPayload) : Prop :=
  OtherAction payload = false ∧ SelfTrade (tradeOf payload) = false ∧
    ∃ symbol, (tradeOf payload).get "symbol" = some (.string symbol)

variable {payload : KafkaBatchConsumerPayload}

/-- A symbol that is no text fails before the library or the database is asked. -/
theorem settleTrade_of_noText {envelope trade : Json}
    (hsymbol : ¬∃ symbol, trade.get "symbol" = some (.string symbol)) :
    Harmless (settleTrade s envelope trade) := by
  have hsplit : ∃ error, splitSymbol (trade.get "symbol") = .error error := by
    rw [splitSymbol.eq_def]
    split
    · exact ⟨_, rfl⟩
    · exact ⟨_, rfl⟩
    · next symbol htext => exact absurd ⟨symbol, htext⟩ hsymbol
    · exact ⟨_, rfl⟩
  obtain ⟨error, herror⟩ := hsplit
  have hthrown : settleTrade s envelope trade = .error error := by
    rw [settleTrade, calculateSettlementAmounts, herror]
    rfl
  rw [hthrown]
  rintro _ ⟨⟩
  exact harmless_splitSymbol _ error herror

/-- Past the schema check no poison pill is thrown, unless a message with a marker settles a
trade. -/
theorem harmless_handleMessage (hschema : ValidSchema payload.value = true)
    (hplain : Settles payload → Plain s ∧ AllUnmarked payload.value) :
    Harmless (handleMessage s payload) := by
  rw [handleMessage, hschema]
  simp only [Bool.not_true, Bool.false_eq_true, if_false]
  split
  · exact (harmless_text _).discard
  · next haction =>
    split
    · exact (harmless_text _).discard.bind fun _ _ => (harmless_text _).discard
    · next hself =>
      by_cases hsymbol : ∃ symbol, (tradeOf payload).get "symbol" = some (.string symbol)
      · have hsettles : Settles payload :=
          ⟨by simpa using haction, by simpa [tradeOf] using hself, hsymbol⟩
        obtain ⟨hs, hvalue⟩ := hplain hsettles
        refine harmless_settleTrade hs ?_
        rcases hget : payload.value.get "payload" with _ | trade
        · exact nofun
        · exact hvalue.get hget
      · exact settleTrade_of_noText hsymbol

section Routing

variable {outcomes : ℕ → Outcome} (hat : batch.messages[j]? = some message)
  (hbroker : BrokerAnswers (outcomes j)) (herror : (outcomes j).handleMessage = .error error)

include hat hbroker herror in
/-- The loop at a message whose handler throws. -/
theorem processMessages_of_error :
    (processMessages batch outcomes j (batch.messages.drop j)) =
      (⟨⟨(j, .heartbeat), true⟩ ::
          ⟨(j, .handleMessage (batch.payload message)), false⟩ ::
          (handleError batch j message (outcomes j) error).calls,
        (handleError batch j message (outcomes j) error).answer⟩ : Consumption) >>=
      fun _ => processMessages batch outcomes (j + 1) (batch.messages.drop (j + 1)) := by
  have hdrop : batch.messages.drop j = message :: batch.messages.drop (j + 1) := by
    obtain ⟨hlt, hget⟩ := List.getElem?_eq_some_iff.1 hat
    rw [List.drop_eq_getElem_cons hlt, hget]
  have hfailed : handleAndResolve batch j message (outcomes j) =
      ⟨[⟨(j, .handleMessage (batch.payload message)), false⟩], .error error⟩ := by
    rw [handleAndResolve, herror, call_error_bind]
  rw [hdrop, processMessages, hbroker.isRunning, hbroker.isStale, processMessage,
    hbroker.heartbeat, call_ok_bind]
  simp only [Bool.not_true, Bool.or_false, Bool.false_eq_true, if_false]
  rw [hfailed, tryCatch_of_error rfl]
  rfl

include hat hbroker herror in
theorem routed_of_marked (hmarked : Marked error) :
    ∃ entries, DeadLettered batch entries j ∧ Resolves entries j message.offset ∧
      (processMessages batch outcomes j (batch.messages.drop j)).calls =
        entries ++
          (processMessages batch outcomes (j + 1) (batch.messages.drop (j + 1))).calls := by
  have hcaught : handleError batch j message (outcomes j) error =
      ⟨[⟨(j, .send (dlqRecord batch.topic (batch.payload message) error (outcomes j).now)), true⟩,
        ⟨(j, .resolveOffset message.offset), true⟩, ⟨(j, .commitOffsetsIfNecessary), true⟩],
        .ok ()⟩ := by
    rw [handleError, hmarked, hbroker.send, hbroker.commit]
    rfl
  rw [processMessages_of_error hat hbroker herror, hcaught]
  have hsent := deadLettered_of_send hat error (outcomes j).now
  refine ⟨_, hsent.mono ?_, ?_, rfl⟩
  · exact fun entry hentry => by simp [List.mem_singleton.1 hentry]
  · simp [Resolves]

/-- An error that is no poison pill is thrown on, and nothing is sent. -/
theorem handleError_of_not_marked (batch : Batch) (j : ℕ) (message : KafkaMessage)
    (outcome : Outcome) (hmarked : ¬Marked error) :
    (∃ error', (handleError batch j message outcome error).answer = .error error') ∧
      ∀ record, (⟨(j, .send record), true⟩ : Entry MessageCall) ∉
        (handleError batch j message outcome error).calls := by
  rw [handleError]
  rcases hpoison : isPoisonPillError error with typeError | _ | _
  · exact ⟨⟨typeError, rfl⟩, by simp⟩
  · rcases outcome.pause with error' | _
    · exact ⟨⟨error', rfl⟩, by simp⟩
    · exact ⟨⟨error, rfl⟩, by simp⟩
  · exact absurd hpoison hmarked

include hat hbroker herror in
theorem not_deadLettered_of_not_marked (hmarked : ¬Marked error) :
    ¬DeadLettered batch (processMessages batch outcomes j (batch.messages.drop j)).calls j := by
  obtain ⟨⟨error', hanswer⟩, hsend⟩ :=
    handleError_of_not_marked batch j message (outcomes j) hmarked
  rintro ⟨message', record, -, hmem, -⟩
  rw [processMessages_of_error hat hbroker herror, hanswer] at hmem
  have hcalls : (⟨(j, .send record), true⟩ : Entry MessageCall) ∈
      ⟨(j, .heartbeat), true⟩ :: ⟨(j, .handleMessage (batch.payload message)), false⟩ ::
        (handleError batch j message (outcomes j) error).calls := hmem
  simp [hsend record] at hcalls

end Routing

/-- Whether a message that fails is routed is up to the text of its error. -/
theorem routed_iff_marked (hat : batch.messages[j]? = some message)
    (herror : handleMessage s (batch.payload message) = .error error) :
    Routed s batch j message ↔ Marked error := by
  constructor
  · intro hrouted
    by_contra hmarked
    let outcome : Outcome := {
      isRunning := true, isStale := false, heartbeat := .ok (),
      handleMessage := handleMessage s (batch.payload message),
      commitOffsetsIfNecessary := .ok (), recordLag := .ok (), send := .ok (),
      commitAfterDlq := .ok (), pause := .ok (), now := "" }
    have hbroker : BrokerAnswers outcome := ⟨rfl, rfl, rfl, rfl, rfl⟩
    obtain ⟨entries, hsent, -, hcalls⟩ := hrouted (fun _ => outcome) hbroker rfl
    have hnone : ¬DeadLettered batch
        (processMessages batch (fun _ => outcome) j (batch.messages.drop j)).calls j :=
      not_deadLettered_of_not_marked hat hbroker herror hmarked
    exact hnone (hsent.mono (hcalls ▸ List.subset_append_left ..))
  · intro hmarked outcomes hbroker hhandled
    exact routed_of_marked hat hbroker (hhandled.trans herror) hmarked

theorem handleMessage_of_invalid (h : ValidSchema payload.value = false) :
    handleMessage s payload = .error (.error (invalidEventSchema payload.offset) none) := by
  rw [handleMessage, h]
  rfl

/-- The error that names the schema is a poison pill, whatever the offset. -/
theorem marked_invalidEventSchema (offset : String) :
    Marked (.error (invalidEventSchema offset) none) := by
  have hstart : "INVALID_EVENT_SCHEMA" ++ ": Missing envelope or payload at offset " =
      "INVALID_EVENT_SCHEMA: Missing envelope or payload at offset " := String.ofList_append.symm
  refine marked_error.2 fun hunmarked => ?_
  have hmarker : Unmarked "INVALID_EVENT_SCHEMA" :=
    Unmarked.left ((congrArg Unmarked hstart).mpr hunmarked.left)
  exact not_unmarked_marker (.tail _ (.tail _ (.head _))) hmarker

/-- Whatever the surroundings, a message that fails the schema check is routed. -/
theorem routed_of_invalid (hat : batch.messages[j]? = some message)
    (hschema : ValidSchema (batch.payload message).value = false) : Routed s batch j message :=
  (routed_iff_marked hat (handleMessage_of_invalid hschema)).2 (marked_invalidEventSchema _)

/-- A message that fails in every state of the database is routed to the dead letter queue in
every state if it fails the schema check. It is routed for no other reason, unless a text
with a marker comes with a trade that is settled: the surroundings may repeat that text, and
report no marker of their own. -/
theorem routed_iff {Database : Type} [Nonempty Database] {world : Database → Surroundings}
    (hat : batch.messages[j]? = some message)
    (hfails : ∀ db, Fails (world db) (batch.payload message))
    (hrepeats : ¬MentionsMarker (batch.payload message).value → ∀ db, Plain (world db)) :
    (ValidSchema (batch.payload message).value = false →
        ∀ db, Routed (world db) batch j message) ∧
      (¬(MentionsMarker (batch.payload message).value ∧ Settles (batch.payload message)) →
        ((∀ db, Routed (world db) batch j message) ↔
          ValidSchema (batch.payload message).value = false)) := by
  refine ⟨fun hschema _ => routed_of_invalid hat hschema, fun hnone => ⟨fun hrouted => ?_,
    fun hschema _ => routed_of_invalid hat hschema⟩⟩
  by_contra hschema
  obtain ⟨db⟩ := ‹Nonempty Database›
  obtain ⟨error, herror⟩ := hfails db
  have hmarked : Marked error := (routed_iff_marked hat herror).1 (hrouted db)
  refine harmless_handleMessage (by simpa using hschema) (fun hsettles => ?_) error herror hmarked
  have hunmarked : ¬MentionsMarker (batch.payload message).value := fun h => hnone ⟨h, hsettles⟩
  exact ⟨hrepeats hunmarked db, by simpa [MentionsMarker, AllUnmarked] using hunmarked⟩

/-- A batch of one message. -/
def oneMessage (value : RawValue) : Batch where
  topic := "dev.matching.lifecycle"
  partition := 0
  messages := [{ offset := "7", key := none, value := some value, headers := [] }]

/-- A library that reads every value as one. -/
def onlyOnes : BigNumbers where
  Number := Unit
  construct _ := .ok ()
  multipliedBy _ _ := .ok ()
  minus _ _ := .ok ()
  isGreaterThan _ _ := .ok false
  toFixed _ := .ok "1.00000000"

/-- A database that finds an account of every user, and has settled every event. -/
def everythingSettled : Surroundings where
  numberText _ := "0"
  numbers := onlyOnes
  findByUserAndCurrency _ _ := .ok (some "account")
  insertAccount _ _ := .ok "account"
  findFallback _ _ := .ok (some "account")
  order := Participant.all
  begin := .ok ()
  isEventProcessed _ := .ok true
  lockAccounts accountIds := .ok accountIds
  writeSettlement _ _ _ := .ok ()
  commit := .ok ()

theorem plain_everythingSettled : Plain everythingSettled where
  numberText _ := (unmarked_ofList rfl : Unmarked "0")
  numbers := ⟨fun _ => .ok _, fun _ _ => .ok _, fun _ _ => .ok _, fun _ _ => .ok _, fun _ => .ok _⟩
  findByUserAndCurrency _ _ := .ok _
  findFallback _ _ := .ok _
  begin := .ok _
  isEventProcessed _ := .ok _
  lockAccounts _ := .ok _
  writeSettlement _ _ _ := .ok _
  commit := .ok _

/-- A message that is no JSON is routed. -/
theorem routed_iff_notJson : ∃ message, (oneMessage (.text "not json")).messages[0]? = some message ∧
    ∀ _ : Unit, Routed everythingSettled (oneMessage (.text "not json")) 0 message :=
  ⟨_, rfl, (routed_iff rfl (fun _ => ⟨_, rfl⟩) (fun _ _ => plain_everythingSettled)).1 rfl⟩

/-- A trade without a symbol. -/
def missingSymbol : Batch := oneMessage <| .json <| .object
  [("eventId", .string "event-1"),
   ("payload", .object [("buyerUserId", .string "alice"), ("sellerUserId", .string "bob")])]

/-- The trade without a symbol fails in every state, and never goes to the dead letter
queue. -/
theorem not_routed_missingSymbol : ∃ message, missingSymbol.messages[0]? = some message ∧
    ∀ s, Fails s (missingSymbol.payload message) ∧ ¬Routed s missingSymbol 0 message := by
  refine ⟨_, rfl, fun s => ?_⟩
  have herror : ∀ message, missingSymbol.messages[0]? = some message →
      handleMessage s (missingSymbol.payload message) =
        thrown "Cannot read properties of undefined (reading 'split')" := by
    rintro _ ⟨⟩
    rfl
  refine ⟨⟨_, herror _ rfl⟩, fun hrouted => ?_⟩
  have hmarked := (routed_iff_marked rfl (herror _ rfl)).1 hrouted
  exact marked_error.1 hmarked (unmarked_ofList rfl)

end EtherTrade.SettlementPoisonLaws
