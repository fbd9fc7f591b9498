import Mathlib.Data.List.Count
import Mathlib.Data.Nat.Notation

/-!
# Counting in windows of fixed length

A window opens with a first entry and takes at most a given number of entries while it lasts.
The next one opens after its end. An interval as long as a window meets two of them at most,
and then not the opening of the first.
-/

namespace EtherTrade.FixedWindows

variable {limit span a t : ℕ}

/-- A window that lasts for a span, both ends included. -/
structure Window (limit span : ℕ) where
  opened : ℕ
  later : List ℕ
  few : later.length < limit
  within : ∀ t ∈ later, opened ≤ t ∧ t ≤ opened + span

namespace Window

variable (window : Window limit span)

/-- The entries that a window has taken. -/
def times : List ℕ := window.opened :: window.later

theorem length_times_le : window.times.length ≤ limit := window.few

theorem mem_times (h : t ∈ window.times) : window.opened ≤ t ∧ t ≤ window.opened + span := by
  rcases List.mem_cons.mp h with rfl | hlater
  · omega
  · exact window.within t hlater

/-- A window with nothing but its opening. -/
def opening (limit span now : ℕ) (h : 0 < limit) : Window limit span where
  opened := now
  later := []
  few := h
  within _ ht := absurd ht List.not_mem_nil

/-- Another entry while the window lasts. -/
def push (now : ℕ) (hfew : window.later.length + 1 < limit)
    (hwithin : window.opened ≤ now ∧ now ≤ window.opened + span) : Window limit span where
  opened := window.opened
  later := window.later ++ [now]
  few := by
    rw [List.length_append]
    exact hfew
  within t ht := by
    rcases List.mem_append.mp ht with hold | hnew
    · exact window.within t hold
    · rw [List.mem_singleton.mp hnew]
      exact hwithin

@[simp] theorem times_opening (now : ℕ) (h : 0 < limit) :
    (opening limit span now h).times = [now] := rfl

@[simp] theorem times_push {now : ℕ} (hfew : window.later.length + 1 < limit)
    (hwithin : window.opened ≤ now ∧ now ≤ window.opened + span) :
    (window.push now hfew hwithin).times = window.times ++ [now] := rfl

end Window

/-- The entries from a time on that come within the span. -/
def countFrom (span a : ℕ) (times : List ℕ) : ℕ :=
  times.countP fun t => a ≤ t ∧ t ≤ a + span

theorem countFrom_eq_zero {times : List ℕ} (h : ∀ t ∈ times, t < a ∨ a + span < t) :
    countFrom span a times = 0 := by
  refine List.countP_eq_zero.mpr fun t ht => ?_
  rw [decide_eq_true_eq]
  have htime := h t ht
  omega

/-- Every window opens after the end of those before it. -/
def Separated (windows : List (Window limit span)) : Prop :=
  windows.Pairwise fun window next => window.opened + span < next.opened

variable {windows : List (Window limit span)} {window : Window limit span}

theorem mem_flatMap_times (h : t ∈ windows.flatMap Window.times) :
    ∃ window ∈ windows, window.opened ≤ t := by
  obtain ⟨window, hwindow, ht⟩ := List.mem_flatMap.mp h
  exact ⟨window, hwindow, (window.mem_times ht).1⟩

theorem countFrom_flatMap_cons : countFrom span a ((window :: windows).flatMap Window.times) =
    countFrom span a window.times + countFrom span a (windows.flatMap Window.times) := by
  rw [countFrom, List.flatMap_cons, List.countP_append]
  rfl

theorem countFrom_times_le : countFrom span a window.times ≤ limit :=
  Nat.le_trans List.countP_le_length window.length_times_le

/-- The interval begins after the window has opened. -/
theorem countFrom_times_lt (h : window.opened < a) : countFrom span a window.times < limit := by
  have hopened : ¬(a ≤ window.opened ∧ window.opened ≤ a + span) := by omega
  rw [countFrom, Window.times, List.countP_cons_of_neg (by simpa using hopened)]
  exact Nat.lt_of_le_of_lt List.countP_le_length window.few

/-- The interval begins no later than the window opens. -/
theorem countFrom_later_eq_zero (h : Separated (window :: windows)) (ha : a ≤ window.opened) :
    countFrom span a (windows.flatMap Window.times) = 0 := by
  refine countFrom_eq_zero fun t ht => ?_
  obtain ⟨next, hnext, hopened⟩ := mem_flatMap_times ht
  have hafter := (List.pairwise_cons.mp h).1 next hnext
  omega

/-- What an interval holds of the windows behind one that it meets. -/
theorem countFrom_next_le (h : Separated (window :: windows)) (hmeets : a ≤ window.opened + span) :
    countFrom span a (windows.flatMap Window.times) ≤ limit := by
  cases windows with
  | nil => exact Nat.zero_le _
  | cons next windows =>
    have hnext := (List.pairwise_cons.mp h).1 next List.mem_cons_self
    have hrest := (List.pairwise_cons.mp h).2
    rw [countFrom_flatMap_cons, countFrom_later_eq_zero hrest (by omega)]
    exact countFrom_times_le

theorem countFrom_flatMap_lt (h : Separated windows) (hlimit : 0 < limit) :
    countFrom span a (windows.flatMap Window.times) < 2 * limit := by
  induction windows with
  | nil =>
    rw [List.flatMap_nil, countFrom, List.countP_nil]
    omega
  | cons window windows ih =>
    rw [countFrom_flatMap_cons]
    by_cases hended : window.opened + span < a
    · have hnone : countFrom span a window.times = 0 := countFrom_eq_zero fun t ht => by
        have htime := window.mem_times ht
        omega
      have hrest := ih (List.pairwise_cons.mp h).2
      omega
    · by_cases hopened : window.opened < a
      · have hfirst : countFrom span a window.times < limit := countFrom_times_lt hopened
        have hnext := countFrom_next_le h (Nat.not_lt.mp hended)
        omega
      · have hfirst : countFrom span a window.times ≤ limit := countFrom_times_le
        have hnone := countFrom_later_eq_zero h (Nat.not_lt.mp hopened)
        omega

end EtherTrade.FixedWindows
