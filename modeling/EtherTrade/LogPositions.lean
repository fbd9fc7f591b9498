import Mathlib.Data.List.Infix
import Mathlib.Data.List.Nodup

/-!
# Positions in a log

What comes before an entry of a log, and what follows it. A log only grows at its end, so
neither changes once there is something behind the entry.
-/

namespace EtherTrade.LogPositions

universe u

variable {ρ : Type u} [DecidableEq ρ] {r next : ρ} {log more earlier later : List ρ}

/-- What comes before an entry. -/
def before (log : List ρ) (r : ρ) : List ρ := log.takeWhile (· ≠ r)

/-- The entry that follows an entry. -/
def following (log : List ρ) (r : ρ) : Option ρ := (log.dropWhile (· ≠ r)).tail.head?

theorem before_within : before log r <+: log := List.takeWhile_prefix _

theorem before_split (h : r ∉ earlier) : before (earlier ++ r :: later) r = earlier := by
  induction earlier with
  | nil => simp [before]
  | cons first earlier ih =>
    obtain ⟨hne, hrest⟩ := List.ne_and_not_mem_of_not_mem_cons h
    have hne' : first ≠ r := Ne.symm hne
    rw [List.cons_append, before, List.takeWhile_cons_of_pos (by simpa using hne')]
    exact congrArg (first :: ·) (ih hrest)

theorem following_split (h : r ∉ earlier) : following (earlier ++ r :: later) r = later.head? := by
  induction earlier with
  | nil => simp [following]
  | cons first earlier ih =>
    obtain ⟨hne, hrest⟩ := List.ne_and_not_mem_of_not_mem_cons h
    have hne' : first ≠ r := Ne.symm hne
    rw [List.cons_append, following, List.dropWhile_cons_of_pos (by simpa using hne')]
    exact ih hrest

theorem before_append (h : r ∈ log) : before (log ++ more) r = before log r := by
  obtain ⟨earlier, later, rfl, hfirst⟩ := List.eq_append_cons_of_mem h
  rw [List.append_assoc, List.cons_append, before_split hfirst, before_split hfirst]

theorem following_append (h : r ∈ log) (hnext : following log r = some next) :
    following (log ++ more) r = some next := by
  obtain ⟨earlier, later, rfl, hfirst⟩ := List.eq_append_cons_of_mem h
  rw [following_split hfirst] at hnext
  rw [List.append_assoc, List.cons_append, following_split hfirst, List.head?_append, hnext,
    Option.some_or]

/-- Of two entries, the later one has more before it. -/
theorem pairwise_before (h : log.Nodup) :
    log.Pairwise fun r r' => before log r <+: before log r' := by
  induction log using List.reverseRecOn with
  | nil => exact .nil
  | append_singleton log last ih =>
    obtain ⟨hlog, -, hdisjoint⟩ := List.nodup_append.mp h
    have hlast : last ∉ log := fun hmem => hdisjoint last hmem last (List.mem_singleton_self _) rfl
    refine List.pairwise_append.mpr ⟨?_, List.pairwise_singleton _ _, fun r hr r' hr' => ?_⟩
    · refine (ih hlog).imp_of_mem fun {r r'} hr hr' hwithin => ?_
      rwa [before_append hr, before_append hr']
    · rw [List.mem_singleton.mp hr', before_append hr, before_split hlast]
      exact before_within

end EtherTrade.LogPositions
