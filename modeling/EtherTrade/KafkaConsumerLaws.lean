import EtherTrade.KafkaConsumer

/-!
# No message of a batch is lost

Whatever the handler, the broker and the producer answer, and wherever the batch is left,
the offsets resolved so far are those of a prefix of the batch, and every message of it
has been handled or is in the dead letter topic with its offset.
-/

namespace EtherTrade.KafkaConsumerLaws

open RecordedCalls Recorded KafkaConsumer

variable {batch : Batch} {outcomes : ℕ → Outcome} {outcome : Outcome} {message : KafkaMessage}
  {messages : List KafkaMessage} {error : Thrown} {i j last n : ℕ} {offset : String}
  {entries entries' before after : List (Entry MessageCall)}

/-- An offset has been resolved for the message at a position. -/
def Resolves (entries : List (Entry MessageCall)) (j : ℕ) (offset : String) : Prop :=
  ⟨(j, .resolveOffset offset), true⟩ ∈ entries

/-- The handler has returned for the message at a position. -/
def Handled (batch : Batch) (entries : List (Entry MessageCall)) (j : ℕ) : Prop :=
  ∃ message, batch.messages[j]? = some message ∧
    ⟨(j, .handleMessage (batch.payload message)), true⟩ ∈ entries

/-- The message at a position has been sent to the dead letter topic with its offset. -/
def DeadLettered (batch : Batch) (entries : List (Entry MessageCall)) (j : ℕ) : Prop :=
  ∃ message record, batch.messages[j]? = some message ∧
    ⟨(j, .send record), true⟩ ∈ entries ∧ record.topic = dlqTopic batch.topic ∧
    record.headers.lookup KafkaHeaders.dlqOriginalOffset = some message.offset

def Settled (batch : Batch) (entries : List (Entry MessageCall)) (j : ℕ) : Prop :=
  Handled batch entries j ∨ DeadLettered batch entries j

/-- The position of a message that a call passes to the handler. -/
def handedPosition (entry : Entry MessageCall) : Option ℕ :=
  match entry.call.2 with
  | .handleMessage _ => some entry.call.1
  | _ => none

/-- The positions of the messages passed to the handler, in order. -/
def handed (entries : List (Entry MessageCall)) : List ℕ := entries.filterMap handedPosition

/-- Nothing of the batch is lost in the calls made so far. -/
structure Lossless (batch : Batch) (entries : List (Entry MessageCall)) : Prop where
  resolved : ∃ k ≤ batch.messages.length, ∀ j offset,
    Resolves entries j offset ↔ j < k ∧ (batch.messages[j]?).map (·.offset) = some offset
  settled : ∀ j offset, Resolves entries j offset → Settled batch entries j
  once : (handed entries).Nodup
  stops : ∀ i j, i < j → ¬Settled batch entries i → j ∉ handed entries

@[simp] theorem handed_append : handed (entries ++ entries') = handed entries ++ handed entries' :=
  List.filterMap_append

theorem Resolves.mono (h : Resolves entries j offset) (hsub : entries ⊆ entries') :
    Resolves entries' j offset := hsub h

theorem DeadLettered.mono (h : DeadLettered batch entries j) (hsub : entries ⊆ entries') :
    DeadLettered batch entries' j := by
  obtain ⟨message, record, hat, hmem, hrecord⟩ := h
  exact ⟨message, record, hat, hsub hmem, hrecord⟩

theorem Settled.mono (h : Settled batch entries j) (hsub : entries ⊆ entries') :
    Settled batch entries' j := by
  rcases h with ⟨message, hat, hmem⟩ | hsent
  · exact .inl ⟨message, hat, hsub hmem⟩
  · exact .inr (hsent.mono hsub)

/-- Calls made for one message. -/
def OwnCalls (j : ℕ) (message : KafkaMessage) (entries : List (Entry MessageCall)) : Prop :=
  ∀ entry ∈ entries, entry.call.1 = j ∧
    ∀ offset, entry.call.2 = .resolveOffset offset → offset = message.offset

def Unresolved (entries : List (Entry MessageCall)) : Prop :=
  ∀ entry ∈ entries, ∀ offset, entry.call.2 ≠ .resolveOffset offset

/-- The calls of one iteration: no offset is resolved before the message is settled, and
the message is passed to the handler once at most. -/
structure Iteration (batch : Batch) (j : ℕ) (message : KafkaMessage)
    (entries : List (Entry MessageCall)) : Prop where
  split : ∃ before after, entries = before ++ after ∧ Unresolved before ∧
    (after ≠ [] → Settled batch before j)
  own : OwnCalls j message entries
  handed : (handed entries).length ≤ 1

/-- An iteration may be left after any of its calls. -/
theorem Iteration.take (h : Iteration batch j message entries) (n : ℕ) :
    Iteration batch j message (entries.take n) := by
  obtain ⟨before, after, rfl, hunresolved, hsettled⟩ := h.split
  refine ⟨⟨before.take n, after.take (n - before.length), List.take_append, ?_, ?_⟩, ?_, ?_⟩
  · exact fun entry hentry => hunresolved entry (List.mem_of_mem_take hentry)
  · intro hne
    have hn : before.length ≤ n := by
      by_contra hlt
      exact hne (by rw [Nat.sub_eq_zero_of_le (by omega), List.take_zero])
    rw [List.take_of_length_le hn]
    exact hsettled (by rintro rfl; exact hne List.take_nil)
  · exact fun entry hentry => h.own entry (List.mem_of_mem_take hentry)
  · exact ((List.take_sublist n _).filterMap _).length_le.trans h.handed

theorem Iteration.settled (h : Iteration batch j message entries)
    (hresolves : Resolves entries j offset) : Settled batch entries j := by
  obtain ⟨before, after, rfl, hunresolved, hsettled⟩ := h.split
  rcases List.mem_append.1 hresolves with hmem | hmem
  · exact absurd rfl (hunresolved _ hmem offset)
  · exact (hsettled (List.ne_nil_of_mem hmem)).mono (List.subset_append_left ..)

theorem handed_attempt {payload : KafkaBatchConsumerPayload} {succeeded : Bool}
    (h : handed after = []) : handed (⟨(j, .heartbeat), true⟩ ::
      ⟨(j, .handleMessage payload), succeeded⟩ :: after) = [j] := by
  change j :: handed after = [j]
  rw [h]

/-- The dead letter record names the offset it was read at. -/
theorem dlqRecord_lookup (payload : KafkaBatchConsumerPayload) (topic now : String) :
    (dlqRecord topic payload error now).headers.lookup KafkaHeaders.dlqOriginalOffset =
      some payload.offset := by
  rw [dlqRecord, AList.lookup_insert_ne (by decide), AList.lookup_insert_ne (by decide),
    AList.lookup_insert]

theorem deadLettered_of_send (hat : batch.messages[j]? = some message) (error : Thrown)
    (now : String) :
    DeadLettered batch [⟨(j, .send (dlqRecord batch.topic (batch.payload message) error now)), true⟩] j :=
  ⟨message, _, hat, List.mem_singleton_self _, rfl, dlqRecord_lookup _ _ _⟩

/-- The calls of the `catch` block: the offset is resolved behind a dead letter only, and
always when the block does not throw. -/
theorem handleError_calls (hat : batch.messages[j]? = some message) (outcome : Outcome)
    (error : Thrown) : ∃ before after,
    (handleError batch j message outcome error).calls = before ++ after ∧
      Unresolved before ∧ (after ≠ [] → DeadLettered batch before j) ∧
      OwnCalls j message (before ++ after) ∧ handed (before ++ after) = [] ∧
      ((handleError batch j message outcome error).answer = .ok () →
        Resolves after j message.offset) := by
  rw [handleError]
  rcases isPoisonPillError error with typeError | _ | _
  · exact ⟨[], [], by simp [Unresolved, OwnCalls, handed]⟩
  · refine ⟨[⟨(j, .pause batch.topic batch.partition), outcome.pause.toBool⟩], [], ?_⟩
    rcases outcome.pause with _ | _ <;>
      simp [Unresolved, OwnCalls, handed, handedPosition, Except.toBool]
  · let record := dlqRecord batch.topic (batch.payload message) error outcome.now
    rcases outcome.send with _ | _
    · exact ⟨[⟨(j, .send record), false⟩], [],
        by simp [Unresolved, OwnCalls, handed, handedPosition, record]⟩
    · refine ⟨[⟨(j, .send record), true⟩], [⟨(j, .resolveOffset message.offset), true⟩,
        ⟨(j, .commitOffsetsIfNecessary), outcome.commitAfterDlq.toBool⟩], ?_⟩
      have hsent : DeadLettered batch [⟨(j, .send record), true⟩] j := deadLettered_of_send hat error _
      simp [Unresolved, OwnCalls, handed, handedPosition, Resolves, record, hsent]

/-- The `try` block: once the handler returns, its message is settled. -/
theorem handleAndResolve_calls (batch : Batch) (j : ℕ) (message : KafkaMessage)
    (outcome : Outcome) :
    (∃ error, handleAndResolve batch j message outcome =
        ⟨[⟨(j, .handleMessage (batch.payload message)), false⟩], .error error⟩) ∨
      ∃ after, (handleAndResolve batch j message outcome).calls =
          ⟨(j, .handleMessage (batch.payload message)), true⟩ :: after ∧
        OwnCalls j message after ∧ handed after = [] ∧ Resolves after j message.offset := by
  rw [handleAndResolve]
  rcases outcome.handleMessage with error | _
  · exact .inl ⟨error, call_error_bind⟩
  · refine .inr ?_
    rcases outcome.commitOffsetsIfNecessary with _ | _ <;>
      simp [OwnCalls, handed, handedPosition, Resolves]

/-- The calls after the handler has returned, also those of a `catch` block that is entered
for what fails then: all the message's own, none of them to the handler. -/
theorem handled_calls (hat : batch.messages[j]? = some message)
    {after : List (Entry MessageCall)}
    (hcalls : (handleAndResolve batch j message outcome).calls =
      ⟨(j, .handleMessage (batch.payload message)), true⟩ :: after)
    (hown : OwnCalls j message after) (hhanded : handed after = [])
    (hres : Resolves after j message.offset) :
    ∃ after, (tryCatch (handleAndResolve batch j message outcome)
        (handleError batch j message outcome)).calls =
          ⟨(j, .handleMessage (batch.payload message)), true⟩ :: after ∧
      OwnCalls j message after ∧ handed after = [] ∧ Resolves after j message.offset := by
  rcases hanswer : (handleAndResolve batch j message outcome).answer with error | _
  · obtain ⟨before', after', hcalls', -, -, hown', hhanded', -⟩ :=
      handleError_calls hat outcome error
    refine ⟨after ++ (before' ++ after'), ?_, ?_, ?_, ?_⟩
    · rw [tryCatch_of_error hanswer, hcalls, hcalls', List.cons_append]
    · exact List.forall_mem_append.2 ⟨hown, hown'⟩
    · rw [handed_append, hhanded, hhanded', List.append_nil]
    · exact hres.mono (List.subset_append_left ..)
  · exact ⟨after, by rw [tryCatch_of_ok hanswer, hcalls], hown, hhanded, hres⟩

/-- What the iteration of a message calls; it resolves the offset unless it throws. -/
theorem processMessage_iteration (hat : batch.messages[j]? = some message)
    (outcome : Outcome) :
    Iteration batch j message (processMessage batch j message outcome).calls ∧
      ((processMessage batch j message outcome).answer = .ok () →
        Resolves (processMessage batch j message outcome).calls j message.offset) := by
  rw [processMessage]
  rcases outcome.heartbeat with _ | _
  · rw [call_error_bind]
    refine ⟨⟨⟨_, [], (List.append_nil _).symm, ?_, fun h => (h rfl).elim⟩, ?_, ?_⟩, nofun⟩
    · simp [Unresolved]
    · simp [OwnCalls]
    · exact List.length_filterMap_le _ _
  rw [call_ok_bind]
  rcases handleAndResolve_calls batch j message outcome with ⟨error, hfailed⟩ | ⟨after, hcalls, hown, hhanded, hres⟩
  · -- The handler throws: what is resolved is resolved by the `catch` block.
    obtain ⟨before, after, hcalls, hunresolved, hsettled, hown, hhanded, hres⟩ :=
      handleError_calls hat outcome error
    rw [hfailed, tryCatch_of_error rfl, hcalls]
    refine ⟨⟨⟨_ :: _ :: before, after, rfl, ?_, fun hne => ?_⟩, ?_, ?_⟩, fun hok => ?_⟩
    · simpa [Unresolved] using hunresolved
    · exact Settled.mono (.inr (hsettled hne)) (by simp)
    · simpa [OwnCalls] using hown
    · exact (congrArg List.length (handed_attempt hhanded)).le
    · exact (hres hok).mono fun _ hentry => by simp [hentry]
  · -- The handler returns: the message is settled before anything else happens.
    obtain ⟨after, hcalls, hown, hhanded, hres⟩ := handled_calls hat hcalls hown hhanded hres
    rw [hcalls]
    refine ⟨⟨⟨[_, _], after, rfl, ?_, fun _ => ?_⟩, ?_, ?_⟩, fun _ => ?_⟩
    · simp [Unresolved]
    · exact .inl ⟨message, hat, by simp⟩
    · simpa [OwnCalls] using hown
    · exact (congrArg List.length (handed_attempt hhanded)).le
    · exact hres.mono fun _ hentry => by simp [hentry]

/-- The calls of the loop from one position on: the iterations before the last one are
complete. -/
structure Consumed (batch : Batch) (first last : ℕ) (entries : List (Entry MessageCall)) :
    Prop where
  le : first ≤ last
  between : ∀ entry ∈ entries, first ≤ entry.call.1 ∧ entry.call.1 ≤ last
  complete : ∀ j, first ≤ j → j < last → ∃ offset, Resolves entries j offset
  settled : ∀ j offset, Resolves entries j offset → Settled batch entries j ∧
    (batch.messages[j]?).map (·.offset) = some offset
  handed : (handed entries).Pairwise (· < ·)

theorem Consumed.nil : Consumed batch j j [] where
  le := le_rfl
  between := by simp
  complete := by omega
  settled := by simp [Resolves]
  handed := .nil

theorem mem_handed (h : i ∈ handed entries) : ∃ entry ∈ entries, entry.call.1 = i := by
  obtain ⟨entry, hentry, hposition⟩ := List.mem_filterMap.1 h
  refine ⟨entry, hentry, ?_⟩
  rw [handedPosition] at hposition
  split at hposition
  · exact Option.some_inj.1 hposition
  · cases hposition

theorem Iteration.consumed (h : Iteration batch j message entries)
    (hat : batch.messages[j]? = some message) : Consumed batch j j entries where
  le := le_rfl
  between entry hentry := ⟨(h.own entry hentry).1.ge, (h.own entry hentry).1.le⟩
  complete := by omega
  settled i offset hresolves := by
    obtain ⟨hi, hoffset⟩ := h.own _ hresolves
    obtain rfl : i = j := hi
    exact ⟨h.settled hresolves, by rw [hat, Option.map_some, hoffset offset rfl]⟩
  handed := by
    have hone := h.handed
    generalize KafkaConsumerLaws.handed entries = positions at hone
    rcases positions with _ | ⟨i, _ | ⟨i', positions⟩⟩
    · exact .nil
    · exact List.pairwise_singleton _ i
    · simp at hone

/-- A complete iteration and what the loop does after it. -/
theorem Consumed.cons (hat : batch.messages[j]? = some message)
    (h : Iteration batch j message entries) (hresolves : Resolves entries j message.offset)
    (hrest : Consumed batch (j + 1) last entries') :
    Consumed batch j last (entries ++ entries') where
  le := (Nat.le_succ j).trans hrest.le
  between := by
    have hlast := hrest.le
    refine List.forall_mem_append.2 ⟨fun entry hentry => ?_, fun entry hentry => ?_⟩
    · have := (h.own entry hentry).1
      omega
    · have := hrest.between entry hentry
      omega
  complete i hji hi := by
    rcases hji.eq_or_lt with rfl | hlt
    · exact ⟨_, hresolves.mono (List.subset_append_left ..)⟩
    · obtain ⟨offset, hres⟩ := hrest.complete i hlt hi
      exact ⟨offset, hres.mono (List.subset_append_right ..)⟩
  settled i offset hres := by
    rcases List.mem_append.1 hres with hres | hres
    · obtain ⟨hsettled, hoffset⟩ := (h.consumed hat).settled i offset hres
      exact ⟨hsettled.mono (List.subset_append_left ..), hoffset⟩
    · obtain ⟨hsettled, hoffset⟩ := hrest.settled i offset hres
      exact ⟨hsettled.mono (List.subset_append_right ..), hoffset⟩
  handed := by
    rw [handed_append]
    refine List.pairwise_append.2 ⟨(h.consumed hat).handed, hrest.handed, fun a ha b hb => ?_⟩
    obtain ⟨entry, hentry, rfl⟩ := mem_handed ha
    obtain ⟨entry', hentry', rfl⟩ := mem_handed hb
    have hj := (h.own entry hentry).1
    have hb := (hrest.between entry' hentry').1
    omega

/-- By induction on the messages left: at every moment the loop has completed iterations,
and is in one more. -/
theorem processMessages_consumed (outcomes : ℕ → Outcome) (hdrop : batch.messages.drop j = messages) (n : ℕ) :
    ∃ last, Consumed batch j last ((processMessages batch outcomes j messages).calls.take n) := by
  induction messages generalizing j n with
  | nil => exact ⟨j, by simpa [processMessages] using Consumed.nil⟩
  | cons message messages ih =>
    have hat : batch.messages[j]? = some message := by
      rw [← List.head?_drop, hdrop, List.head?_cons]
    have hdrop' : batch.messages.drop (j + 1) = messages := by
      rw [← List.drop_drop, hdrop, List.drop_one, List.tail_cons]
    rw [processMessages]
    split
    · exact ⟨j, by simpa using Consumed.nil⟩
    · obtain ⟨hiteration, hresolves⟩ :=
        processMessage_iteration hat (outcomes j)
      rcases calls_bind (processMessage batch j message (outcomes j))
        (fun _ => processMessages batch outcomes (j + 1) messages) with
        ⟨_, hok, hbind⟩ | ⟨_, -, hbind⟩
      · rw [hbind, List.take_append]
        rcases Nat.le_total n (processMessage batch j message (outcomes j)).calls.length with hn | hn
        · rw [Nat.sub_eq_zero_of_le hn, List.take_zero, List.append_nil]
          exact ⟨j, (hiteration.take n).consumed hat⟩
        · obtain ⟨last, hrest⟩ := ih hdrop' (n - _)
          rw [List.take_of_length_le hn]
          exact ⟨last, .cons hat hiteration (hresolves hok) hrest⟩
      · rw [hbind]
        exact ⟨j, (hiteration.take n).consumed hat⟩

/-- The messages resolved are those before a position: the last one may be missing. -/
theorem Consumed.exists_resolved (h : Consumed batch 0 last entries) :
    ∃ k, ∀ i, (∃ offset, Resolves entries i offset) ↔ i < k := by
  have hle {i : ℕ} : (∃ offset, Resolves entries i offset) → i ≤ last :=
    fun ⟨_, hres⟩ => (h.between _ hres).2
  by_cases hlast : ∃ offset, Resolves entries last offset
  · refine ⟨last + 1, fun i => ⟨fun hi => Nat.lt_succ_of_le (hle hi), fun hi => ?_⟩⟩
    rcases (Nat.le_of_lt_succ hi).eq_or_lt with rfl | hlt
    · exact hlast
    · exact h.complete i (Nat.zero_le i) hlt
  · refine ⟨last, fun i => ⟨fun hi => (hle hi).lt_of_ne ?_, h.complete i (Nat.zero_le i)⟩⟩
    rintro rfl
    exact hlast hi

theorem Consumed.lossless (h : Consumed batch 0 last entries) : Lossless batch entries where
  resolved := by
    obtain ⟨k, hk⟩ := h.exists_resolved
    refine ⟨k, ?_, fun i offset => ⟨fun hres => ?_, fun ⟨hi, hoffset⟩ => ?_⟩⟩
    · by_contra hlt
      obtain ⟨offset, hres⟩ := (hk batch.messages.length).2 (not_le.1 hlt)
      simpa using (h.settled _ offset hres).2
    · exact ⟨(hk i).1 ⟨offset, hres⟩, (h.settled i offset hres).2⟩
    · obtain ⟨offset', hres⟩ := (hk i).2 hi
      obtain rfl := Option.some_inj.1 ((h.settled i offset' hres).2.symm.trans hoffset)
      exact hres
  settled j offset hres := (h.settled j offset hres).1
  once := h.handed.imp fun hlt => hlt.ne
  stops i j hij hunsettled hj := by
    obtain ⟨entry, hentry, rfl⟩ := mem_handed hj
    obtain ⟨offset, hres⟩ := h.complete i (Nat.zero_le i) (by
      have := (h.between entry hentry).2
      omega)
    exact hunsettled (h.settled i offset hres).1

/-- Whenever the batch is looked at, and whatever the outcomes are, nothing of it is lost. -/
theorem processBatch_lossless (batch : Batch) (outcomes : ℕ → Outcome) (n : ℕ) :
    Lossless batch ((processBatch batch outcomes).calls.take n) := by
  obtain ⟨last, h⟩ := processMessages_consumed outcomes List.drop_zero n
  exact h.lossless

end EtherTrade.KafkaConsumerLaws
