import Mathlib.Data.List.Sort
import Mathlib.Data.Prod.Lex
import EtherTrade.KeyedRows

/-!
# Sorted sets

The sorted set of a key-value store: members with scores, each member once, ranked by
score and, where scores are equal, by member.
-/

namespace EtherTrade.SortedSets

open KeyedRows

universe u v

structure SortedSet (M : Type u) (S : Type v) where
  entries : List (M × S)
  unique : KeyUnique Prod.fst entries

namespace SortedSet

variable {M : Type u} {S : Type v}

def empty : SortedSet M S := ⟨[], keyUnique_nil⟩

/-- A member that is present takes the new score. -/
def zadd [DecidableEq M] (z : SortedSet M S) (member : M) (score : S) : SortedSet M S where
  entries := merge Prod.fst z.entries [(member, score)]
  unique := keyUnique_merge z.unique (List.nodup_singleton _)

def zrem [DecidableEq M] (z : SortedSet M S) (member : M) : SortedSet M S where
  entries := z.entries.filter fun e => e.1 ≠ member
  unique := z.unique.sublist (List.filter_sublist.map Prod.fst)

section Scores

variable [DecidableEq M] (z : SortedSet M S) {m member : M} {t : S}

/-- The score of a member. -/
def score (z : SortedSet M S) (m : M) : Option S := (lookup Prod.fst z.entries m).map Prod.snd

@[simp] theorem score_empty : (empty : SortedSet M S).score m = none := rfl

@[simp] theorem score_zadd :
    (z.zadd member t).score m = if m = member then some t else z.score m := by
  rw [SortedSet.score, zadd, lookup_merge]
  by_cases h : m = member
  · simp [h, lookup]
  · simp [h, lookup, Ne.symm h, SortedSet.score]

@[simp] theorem score_zrem :
    (z.zrem member).score m = if m = member then none else z.score m := by
  rw [SortedSet.score, zrem]
  split
  · next h =>
    have hnone : lookup Prod.fst (z.entries.filter fun e => e.1 ≠ member) m = none := by
      refine lookup_eq_none.mpr fun e he => ?_
      rw [h]
      simpa using (List.mem_filter.mp he).2
    rw [hnone, Option.map_none]
  · next h =>
    have hsame : (fun e : M × S => decide (decide (e.1 ≠ member) = true ∧ decide (e.1 = m) = true)) =
        fun e => decide (e.1 = m) := by
      funext e
      by_cases he : e.1 = m
      · simp [he, h]
      · simp [he]
    rw [SortedSet.score, lookup, List.find?_filter, hsame]
    rfl

/-- Removing what is no member changes nothing. -/
theorem zrem_eq_self (h : z.score member = none) : z.zrem member = z := by
  have hnone := lookup_eq_none.mp (Option.map_eq_none_iff.mp h)
  have hentries : (z.entries.filter fun e => e.1 ≠ member) = z.entries :=
    List.filter_eq_self.mpr fun e he => by simpa using hnone e he
  have hext {a b : List (M × S)} (h : a = b) (ha : KeyUnique Prod.fst a)
      (hb : KeyUnique Prod.fst b) : SortedSet.mk a ha = SortedSet.mk b hb := by
    subst h
    rfl
  exact hext hentries _ _

end Scores

variable [LinearOrder M] [LinearOrder S]

def ranked (z : SortedSet M S) : List M :=
  ((z.entries.map fun e => toLex (e.2, e.1)).insertionSort (· ≤ ·)).map fun e => (ofLex e).2

/-- The first `limit` members, of the reversed order when `reverse` is set. -/
def zrange (z : SortedSet M S) (limit : ℕ) (reverse : Bool) : List M :=
  (if reverse then z.ranked.reverse else z.ranked).take limit

variable (z : SortedSet M S) {m : M} {limit : ℕ} {reverse : Bool}

theorem ranked_perm : z.ranked.Perm (z.entries.map Prod.fst) := by
  have hsorted := (List.perm_insertionSort (· ≤ ·)
    (z.entries.map fun e => toLex (e.2, e.1))).map fun e => (ofLex e).2
  rw [List.map_map] at hsorted
  exact hsorted

theorem nodup_ranked : z.ranked.Nodup := z.ranked_perm.nodup_iff.mpr z.unique

/-- The ranking, with the scores that it is made from. -/
theorem pairwise_lt_ranked : z.ranked.Pairwise fun a b =>
    ∃ s t, z.score a = some s ∧ z.score b = some t ∧ toLex (s, a) < toLex (t, b) := by
  have hscore : ∀ x ∈ (z.entries.map fun e => toLex (e.2, e.1)).insertionSort (· ≤ ·),
      z.score (ofLex x).2 = some (ofLex x).1 := by
    intro x hx
    obtain ⟨e, he, rfl⟩ := List.mem_map.mp ((List.mem_insertionSort _).mp hx)
    have hlookup : lookup Prod.fst z.entries e.1 = some e := (lookup_eq_some z.unique).mpr ⟨he, rfl⟩
    rw [SortedSet.score]
    exact congrArg (Option.map Prod.snd) hlookup
  have hnodup := z.nodup_ranked
  rw [ranked, List.Nodup, List.pairwise_map] at hnodup
  rw [ranked, List.pairwise_map]
  refine ((List.pairwise_insertionSort (· ≤ ·) _).and hnodup).imp_of_mem
    fun {x y} hx hy ⟨hle, hne⟩ => ⟨_, _, hscore x hx, hscore y hy, lt_of_le_of_ne hle ?_⟩
  exact fun heq => hne (congrArg (fun z => (ofLex z).2) heq)

theorem mem_ranked : m ∈ z.ranked ↔ (z.score m).isSome := by
  rw [z.ranked_perm.mem_iff, score, Option.isSome_map, Option.isSome_iff_ne_none, Ne,
    lookup_eq_none, List.mem_map]
  push Not
  rfl

theorem nodup_zrange : (z.zrange limit reverse).Nodup := by
  have hall : (if reverse then z.ranked.reverse else z.ranked).Nodup := by
    split
    · exact List.nodup_reverse.mpr z.nodup_ranked
    · exact z.nodup_ranked
  exact hall.sublist (List.take_sublist _ _)

theorem mem_of_mem_zrange (h : m ∈ z.zrange limit reverse) : (z.score m).isSome := by
  have hmem := List.mem_of_mem_take h
  rw [← mem_ranked]
  split at hmem
  · exact List.mem_reverse.mp hmem
  · exact hmem

end SortedSet

end EtherTrade.SortedSets
