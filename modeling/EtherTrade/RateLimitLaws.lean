import EtherTrade.FixedWindows
import EtherTrade.TradingGateway

/-!
# The rate limit of a socket

The counter of a socket starts anew with the first message after its window. Within a window
fifty messages pass; an interval of the same length may hold the end of one window and the
beginning of the next.
-/

namespace EtherTrade.RateLimitLaws

open TradingGateway FixedWindows

/-! ### Sockets and their messages -/

/-- The subscribe and unsubscribe messages of a socket since it was opened, with their arrival
times and whether they passed. Anything else leaves the counter alone. -/
inductive Checked : AuthenticatedWebSocket → List (ℕ × Bool) → Prop
  | opened {socket} (hreset : socket.windowReset = none) (hcount : socket.messageCount = 0) :
      Checked socket []
  | meanwhile {socket socket' history} (h : Checked socket history)
      (hreset : socket'.windowReset = socket.windowReset)
      (hcount : socket'.messageCount = socket.messageCount) : Checked socket' history
  | message {socket history now} (h : Checked socket history)
      (htime : ∀ earlier ∈ history, earlier.1 ≤ now) :
      Checked (socket.checkRateLimit now).2 (history ++ [(now, (socket.checkRateLimit now).1)])

variable {socket socket' : AuthenticatedWebSocket} {history : List (ℕ × Bool)} {now : ℕ}

/-- The arrival times of the messages that passed. -/
def passed (history : List (ℕ × Bool)) : List ℕ := (history.filter Prod.snd).map Prod.fst

theorem passed_append (allowed : Bool) :
    passed (history ++ [(now, allowed)]) = passed history ++ if allowed then [now] else [] := by
  rw [passed, List.filter_append, List.map_append]
  cases allowed <;> rfl

/-- What the check does to the counter. -/
inductive CheckEffect (socket : AuthenticatedWebSocket) (now : ℕ) : Prop
  | opens (hreset : ∀ reset, socket.windowReset = some reset → reset < now)
      (hallowed : (socket.checkRateLimit now).1 = true)
      (hreset' : (socket.checkRateLimit now).2.windowReset = some (now + 1000))
      (hcount' : (socket.checkRateLimit now).2.messageCount = 1)
  | counts {reset : ℕ} (hreset : socket.windowReset = some reset) (hlasts : now ≤ reset)
      (hallowed : (socket.checkRateLimit now).1 = decide (socket.messageCount < 50))
      (hreset' : (socket.checkRateLimit now).2.windowReset = some reset)
      (hcount' : (socket.checkRateLimit now).2.messageCount = socket.messageCount + 1)

theorem checkRateLimit_effect (socket : AuthenticatedWebSocket) (now : ℕ) :
    CheckEffect socket now := by
  have hsend (counted : AuthenticatedWebSocket) (message : ServerMessage) :
      (counted.send message).windowReset = counted.windowReset ∧
        (counted.send message).messageCount = counted.messageCount := by
    unfold AuthenticatedWebSocket.send
    split <;> exact ⟨rfl, rfl⟩
  by_cases hopens : socket.windowReset.all (· < now) = true
  · have hcheck : socket.checkRateLimit now =
        (true, { socket with windowReset := some (now + 1000), messageCount := 1 }) := by
      rw [AuthenticatedWebSocket.checkRateLimit, if_pos hopens]
    refine .opens (fun reset hreset => ?_) ?_ ?_ ?_
    · simpa [hreset] using hopens
    · rw [hcheck]
    · rw [hcheck]
    · rw [hcheck]
  · cases hreset : socket.windowReset with
    | none =>
      rw [hreset] at hopens
      exact absurd rfl hopens
    | some reset =>
      have hlasts : now ≤ reset := by simpa [hreset] using hopens
      by_cases hmany : socket.messageCount + 1 > 50
      · have hcheck : socket.checkRateLimit now = (false,
            ({ socket with messageCount := socket.messageCount + 1 } : AuthenticatedWebSocket).send
              (.error "Rate limit exceeded: max 50 requests per second"
                (some "WS_RATE_LIMITED") now)) := by
          rw [AuthenticatedWebSocket.checkRateLimit, if_neg hopens]
          exact if_pos hmany
        refine .counts hreset hlasts ?_ ?_ ?_
        · rw [hcheck]
          exact (decide_eq_false (by omega)).symm
        · rw [hcheck, (hsend _ _).1]
          exact hreset
        · rw [hcheck, (hsend _ _).2]
      · have hcheck : socket.checkRateLimit now =
            (true, { socket with messageCount := socket.messageCount + 1 }) := by
          rw [AuthenticatedWebSocket.checkRateLimit, if_neg hopens]
          exact if_neg hmany
        refine .counts hreset hlasts ?_ ?_ ?_
        · rw [hcheck]
          exact (decide_eq_true (by omega)).symm
        · rw [hcheck]
          exact hreset
        · rw [hcheck]

/-! ### Windows of the counter -/

abbrev CounterWindow := Window 50 1000

/-- The messages that passed fall into windows, and the counter is that of the last one. -/
structure Counted (socket : AuthenticatedWebSocket) (history : List (ℕ × Bool))
    (windows : List CounterWindow) : Prop where
  separated : Separated windows
  times : windows.flatMap Window.times = passed history
  unopened : socket.windowReset = none → windows = []
  last : ∀ reset, socket.windowReset = some reset → ∃ earlier window,
    windows = earlier ++ [window] ∧ reset = window.opened + 1000 ∧
      window.times.length = min socket.messageCount 50

theorem mem_passed {t : ℕ} (h : t ∈ passed history) : ∃ entry ∈ history, entry.1 = t := by
  obtain ⟨entry, hentry, rfl⟩ := List.mem_map.mp h
  exact ⟨entry, List.mem_of_mem_filter hentry, rfl⟩

/-- A message behind the last window opens another. -/
theorem separated_concat {windows : List CounterWindow} {next : CounterWindow}
    (h : Separated windows) (hlast : ∀ earlier window, windows = earlier ++ [window] →
      window.opened + 1000 < next.opened) : Separated (windows ++ [next]) := by
  refine List.pairwise_append.mpr ⟨h, List.pairwise_singleton _ _, fun window hwindow w hw => ?_⟩
  obtain rfl := List.mem_singleton.mp hw
  rcases List.eq_nil_or_concat windows with rfl | ⟨earlier, last, rfl⟩
  · exact absurd hwindow List.not_mem_nil
  · rw [List.concat_eq_append] at h hwindow hlast
    have hbehind := hlast earlier last rfl
    rcases List.mem_append.mp hwindow with hold | hnew
    · have hbefore :=
        (List.pairwise_append.mp h).2.2 window hold last (List.mem_singleton_self last)
      omega
    · rw [List.mem_singleton.mp hnew]
      exact hbehind

theorem counted_message {windows : List CounterWindow} (h : Counted socket history windows)
    (htime : ∀ earlier ∈ history, earlier.1 ≤ now) : ∃ windows',
      Counted (socket.checkRateLimit now).2 (history ++ [(now, (socket.checkRateLimit now).1)])
        windows' := by
  cases checkRateLimit_effect socket now with
  | opens hreset hallowed hreset' hcount' =>
    refine ⟨windows ++ [.opening 50 1000 now (by decide)], ?_, ?_, ?_, ?_⟩
    · refine separated_concat h.separated fun earlier window hsplit => ?_
      cases hopen : socket.windowReset with
      | none =>
        rw [h.unopened hopen] at hsplit
        simp at hsplit
      | some reset =>
        obtain ⟨earlier', window', hsplit', rfl, -⟩ := h.last reset hopen
        obtain ⟨-, hwindow⟩ := List.append_inj' (hsplit.symm.trans hsplit') rfl
        rw [List.singleton_inj.mp hwindow]
        exact hreset _ hopen
    · rw [List.flatMap_append, h.times, passed_append, hallowed]
      rfl
    · rw [hreset']
      intro hnone
      cases hnone
    · intro reset hopen
      rw [hreset'] at hopen
      cases hopen
      exact ⟨windows, _, rfl, rfl, by rw [hcount']; rfl⟩
  | @counts reset hreset hlasts hallowed hreset' hcount' =>
    obtain ⟨earlier, window, rfl, rfl, hlength⟩ := h.last reset hreset
    have hopened : window.opened ≤ now := by
      have hmem : window.opened ∈ passed history := by
        rw [← h.times, List.flatMap_append]
        exact List.mem_append_right _ (by simp [Window.times])
      obtain ⟨entry, hentry, heq⟩ := mem_passed hmem
      exact heq ▸ htime entry hentry
    have hcounted : window.times.length = window.later.length + 1 := rfl
    by_cases hfew : socket.messageCount < 50
    · have hpush : window.later.length + 1 < 50 := by omega
      refine ⟨earlier ++ [window.push now hpush ⟨hopened, hlasts⟩], ?_, ?_, ?_, ?_⟩
      · have hsplit := List.pairwise_append.mp h.separated
        refine List.pairwise_append.mpr
          ⟨hsplit.1, List.pairwise_singleton _ _, fun w hw next hnext => ?_⟩
        obtain rfl := List.mem_singleton.mp hnext
        exact hsplit.2.2 w hw window (List.mem_singleton_self window)
      · rw [passed_append, ← h.times, hallowed, decide_eq_true hfew]
        simp
      · rw [hreset']
        intro hnone
        cases hnone
      · intro reset hopen
        rw [hreset'] at hopen
        cases hopen
        refine ⟨earlier, _, rfl, rfl, ?_⟩
        rw [hcount', Window.times_push, List.length_append, List.length_singleton]
        omega
    · refine ⟨earlier ++ [window], h.separated, ?_, ?_, ?_⟩
      · rw [passed_append, ← h.times, hallowed, decide_eq_false hfew]
        simp
      · rw [hreset']
        intro hnone
        cases hnone
      · intro reset hopen
        rw [hreset'] at hopen
        cases hopen
        refine ⟨earlier, window, rfl, rfl, ?_⟩
        rw [hcount']
        omega

theorem exists_counted (h : Checked socket history) :
    ∃ windows, Counted socket history windows := by
  induction h with
  | opened hreset =>
    refine ⟨[], List.Pairwise.nil, rfl, fun _ => rfl, fun reset hopen => ?_⟩
    rw [hreset] at hopen
    cases hopen
  | meanwhile _ hreset hcount ih =>
    obtain ⟨windows, hcounted⟩ := ih
    refine ⟨windows, hcounted.separated, hcounted.times, ?_, ?_⟩
    · rw [hreset]
      exact hcounted.unopened
    · rw [hreset, hcount]
      exact hcounted.last
  | message _ htime ih =>
    obtain ⟨windows, hcounted⟩ := ih
    exact counted_message hcounted htime

/-- The messages that pass fall into windows of fifty, and fewer than a hundred of them arrive
within one second. -/
theorem rate_limited (socket : AuthenticatedWebSocket) (history : List (ℕ × Bool))
    (h : Checked socket history) :
    (∃ windows : List CounterWindow, Separated windows ∧
      windows.flatMap Window.times = passed history) ∧
    ∀ a, countFrom 1000 a (passed history) ≤ 99 := by
  obtain ⟨windows, hcounted⟩ := exists_counted h
  refine ⟨⟨windows, hcounted.separated, hcounted.times⟩, fun a => ?_⟩
  rw [← hcounted.times]
  exact Nat.le_of_lt_succ (countFrom_flatMap_lt hcounted.separated (by decide))

/-! ### A burst at the end of a window -/

/-- A socket as it is opened. -/
def openedSocket : AuthenticatedWebSocket := ⟨none, .opened, 0, true, 0, none, []⟩

/-- Messages of a socket, one after the other. -/
def checkAll (socket : AuthenticatedWebSocket) (history : List (ℕ × Bool)) :
    List ℕ → List (ℕ × Bool)
  | [] => history
  | now :: times => checkAll (socket.checkRateLimit now).2
      (history ++ [(now, (socket.checkRateLimit now).1)]) times

theorem checked_checkAll {times : List ℕ} (h : Checked socket history)
    (hsorted : (history.map Prod.fst ++ times).Pairwise (· ≤ ·)) :
    ∃ socket', Checked socket' (checkAll socket history times) := by
  induction times generalizing socket history with
  | nil => exact ⟨socket, h⟩
  | cons now times ih =>
    refine ih (h.message fun earlier hearlier => ?_) ?_
    · exact (List.pairwise_append.mp hsorted).2.2 earlier.1 (List.mem_map_of_mem hearlier) now
        List.mem_cons_self
    · simpa using hsorted

/-- A message, forty-nine at the end of its window, and fifty right after. -/
def burst : List ℕ := 0 :: (List.replicate 49 1000 ++ List.replicate 50 1001)

theorem rate_limited_burst :
    countFrom 1000 1000 (passed (checkAll openedSocket [] burst)) = 99 ∧
      (∃ windows : List CounterWindow, Separated windows ∧
        windows.flatMap Window.times = passed (checkAll openedSocket [] burst)) := by
  obtain ⟨socket, hchecked⟩ := checked_checkAll (.opened rfl rfl : Checked openedSocket [])
    (by decide : ([].map Prod.fst ++ burst).Pairwise (· ≤ ·))
  exact ⟨by decide +kernel, (rate_limited socket _ hchecked).1⟩

/-- More than fifty messages pass within one second. -/
theorem not_fifty_perSecond : ¬∀ socket history, Checked socket history → ∀ a,
    (passed history).countP (fun t => a ≤ t ∧ t < a + 1000) ≤ 50 := by
  intro hall
  obtain ⟨socket, hchecked⟩ := checked_checkAll (.opened rfl rfl : Checked openedSocket [])
    (by decide : ([].map Prod.fst ++ burst).Pairwise (· ≤ ·))
  exact absurd (hall socket _ hchecked 1000) (by decide +kernel)

end EtherTrade.RateLimitLaws
