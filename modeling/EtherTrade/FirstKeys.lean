import Mathlib.Data.List.Sort
import EtherTrade.GroupedTotals

/-!
# First keys and best keys

The keys of a list in the order in which they first come, against its distinct keys from
the best one down. A part that is read from the front starts with the best keys if these
come in their order and none of them is left for the rest.
-/

namespace EtherTrade.FirstKeys

open KeyedRows GroupedTotals

universe u v w

variable {κ : Type u} [DecidableEq κ] {keys read rest : List κ} {k k' : κ} {depth : ℕ}

/-! ### First keys -/

theorem eraseDups_concat :
    (keys ++ [k]).eraseDups = if k ∈ keys then keys.eraseDups else keys.eraseDups ++ [k] := by
  rw [List.eraseDups_append]
  by_cases h : k ∈ keys
  · simp [List.removeAll, h]
  · simp [List.removeAll, h, List.eraseDups_cons]

theorem eraseDups_sublist (keys : List κ) : keys.eraseDups.Sublist keys := by
  induction keys using List.reverseRecOn with
  | nil => exact .slnil
  | append_singleton keys k ih =>
    rw [eraseDups_concat]
    split
    · exact ih.trans (List.sublist_append_left _ _)
    · exact ih.append (.refl _)

theorem nodup_eraseDups (keys : List κ) : keys.eraseDups.Nodup := by
  induction keys using List.reverseRecOn with
  | nil => exact List.nodup_nil
  | append_singleton keys k ih =>
    rw [eraseDups_concat]
    split
    · exact ih
    · next hnew =>
      refine List.nodup_append.mpr ⟨ih, List.nodup_singleton k, ?_⟩
      rintro a ha b hb rfl
      obtain rfl := List.mem_singleton.mp hb
      exact hnew (List.mem_eraseDups.mp ha)

/-! ### Best keys -/

section Best

variable (r : κ → κ → Prop) [DecidableRel r]

/-- The distinct keys from the best one down. -/
def best (keys : List κ) : List κ := keys.eraseDups.insertionSort r

variable {r}

theorem best_perm : (best r keys).Perm keys.eraseDups := List.perm_insertionSort r _

theorem mem_best : k ∈ best r keys ↔ k ∈ keys := best_perm.mem_iff.trans List.mem_eraseDups

/-- Keys that come from the best one down come first in that order. -/
theorem eraseDups_eq_best (h : keys.Pairwise r) : keys.eraseDups = best r keys :=
  (h.sublist (eraseDups_sublist keys)).insertionSort_eq.symm

/-- A key that is as good as one of the best keys is one of them. -/
theorem mem_take_best [Std.Total r] [IsTrans κ r] [Std.Antisymm r]
    (hk : k ∈ (best r keys).take depth) (hk' : k' ∈ keys) (h : r k' k) :
    k' ∈ (best r keys).take depth := by
  have hsorted : (best r keys).Pairwise r := List.pairwise_insertionSort r _
  rw [← List.take_append_drop depth (best r keys)] at hsorted
  have hmem : k' ∈ (best r keys).take depth ++ (best r keys).drop depth := by
    rw [List.take_append_drop]
    exact mem_best.mpr hk'
  rcases List.mem_append.mp hmem with hmem | hmem
  · exact hmem
  · have hafter : r k k' := (List.pairwise_append.mp hsorted).2.2 k hk k' hmem
    rwa [antisymm h hafter]

/-- When none of the best keys is left for the rest, the part that is read has them first if and
only if the whole list does. -/
theorem take_eraseDups_iff (hread : ∀ k ∈ (best r (read ++ rest)).take depth, k ∉ rest) :
    read.eraseDups.take depth = (best r (read ++ rest)).take depth ↔
      (read ++ rest).eraseDups.take depth = (best r (read ++ rest)).take depth := by
  have hsplit : (read ++ rest).eraseDups = read.eraseDups ++ (rest.removeAll read).eraseDups :=
    List.eraseDups_append
  by_cases hdepth : depth ≤ read.eraseDups.length
  · rw [hsplit, List.take_append_of_le_length hdepth]
  · have hall : read.eraseDups.take depth = read.eraseDups :=
      List.take_of_length_le (by omega)
    cases hrest : (rest.removeAll read).eraseDups with
    | nil => rw [hsplit, hrest, List.append_nil]
    | cons k ks =>
      have hk : k ∈ rest := by
        have hmem : k ∈ rest.removeAll read := by
          rw [← List.mem_eraseDups, hrest]
          exact List.mem_cons_self
        exact List.mem_of_mem_filter hmem
      constructor
      · -- the keys read would be all keys
        intro heq
        have hlength := congrArg List.length heq
        have htotal : (best r (read ++ rest)).length = (read ++ rest).eraseDups.length :=
          best_perm.length_eq
        rw [hsplit, hrest] at htotal
        rw [hall, List.length_take] at hlength
        simp only [List.length_append, List.length_cons] at htotal
        omega
      · -- the next key would be among the best
        intro heq
        refine absurd hk (hread k ?_)
        rw [← heq, hsplit, hrest]
        obtain ⟨n, hn⟩ := Nat.exists_eq_add_of_lt (not_le.mp hdepth)
        rw [List.take_append, hn]
        refine List.mem_append_right _ ?_
        rw [Nat.add_assoc, Nat.add_sub_cancel_left, List.take_succ_cons]
        exact List.mem_cons_self

/-- When the list comes from the best key down, none of the best keys is left for the rest if
and only if the part that is read has room for all that have one. -/
theorem forall_notMem_rest_iff [Std.Total r] [IsTrans κ r] [Std.Antisymm r]
    (h : (read ++ rest).Pairwise r) :
    (∀ k ∈ (best r (read ++ rest)).take depth, k ∉ rest) ↔
      ((read ++ rest).filter fun k => k ∈ (best r (read ++ rest)).take depth).length ≤
        read.length := by
  constructor
  · intro hread
    have hnone : rest.filter (fun k => k ∈ (best r (read ++ rest)).take depth) = [] :=
      List.filter_eq_nil_iff.mpr fun k hk hbest => hread k (by simpa using hbest) hk
    rw [List.filter_append, hnone, List.append_nil]
    exact List.length_filter_le _ _
  · intro hroom k hbest hk
    have hall : read.filter (fun k => k ∈ (best r (read ++ rest)).take depth) = read := by
      refine List.filter_eq_self.mpr fun k' hk' => ?_
      have hbefore : r k' k := (List.pairwise_append.mp h).2.2 k' hk' k hk
      simpa using mem_take_best hbest (List.mem_append_left _ hk') hbefore
    have hsome : 0 < (rest.filter fun k => k ∈ (best r (read ++ rest)).take depth).length :=
      List.length_pos_of_mem (List.mem_filter.mpr ⟨hk, by simpa using hbest⟩)
    rw [List.filter_append, List.length_append, hall] at hroom
    omega

end Best

/-! ### Totals -/

section Totals

variable {ρ : Type v} {M : Type w} [AddCommMonoid M] {key : ρ → κ} {value : ρ → M} {rows : List ρ}

theorem map_fst_totals : (totals key value rows).map Prod.fst = (rows.map key).eraseDups := by
  induction rows using List.reverseRecOn with
  | nil => rfl
  | append_singleton rows r ih =>
    have hkeys (l : List (κ × M)) (x : M) (k : κ) : (addTo l k x).map Prod.fst =
        if k ∈ l.map Prod.fst then l.map Prod.fst else l.map Prod.fst ++ [k] := by
      have hfound : (lookup Prod.fst l k).isSome ↔ k ∈ l.map Prod.fst := by
        rw [Option.isSome_iff_ne_none, Ne, lookup_eq_none, List.mem_map]
        push Not
        rfl
      rw [addTo]
      by_cases hk : k ∈ l.map Prod.fst
      · rw [if_pos (hfound.mpr hk), if_pos hk, List.map_map]
        refine List.map_congr_left fun t _ => ?_
        simp only [Function.comp_apply]
        split <;> rfl
      · rw [if_neg (mt hfound.mp hk), if_neg hk, List.map_append, List.map_singleton]
    rw [totals, List.foldl_append, List.foldl_cons, List.foldl_nil, ← totals, hkeys, ih,
      List.map_append, List.map_singleton, eraseDups_concat]
    simp only [List.mem_eraseDups]

/-- The map has a total for each key, in the order in which the keys first come. -/
theorem totals_eq : totals key value rows = (rows.map key).eraseDups.map fun k =>
    (k, ((rows.filter fun r => key r = k).map value).sum) := by
  have hnodup : KeyUnique Prod.fst (totals key value rows) := by
    rw [KeyUnique, map_fst_totals]
    exact nodup_eraseDups _
  have htotal : ∀ t ∈ totals key value rows,
      t = (t.1, ((rows.filter fun r => key r = t.1).map value).sum) := by
    intro t ht
    have hlookup : lookup Prod.fst (totals key value rows) t.1 = some t :=
      (lookup_eq_some hnodup).mpr ⟨ht, rfl⟩
    have hat : totalAt key value rows t.1 = some t.2 := by
      rw [← lookup_totals, hlookup, Option.map_some]
    simp only [totalAt] at hat
    split at hat
    · cases hat
    · exact Prod.ext rfl (Option.some.inj hat).symm
  have hfirst : (rows.map key).eraseDups = (totals key value rows).map Prod.fst :=
    map_fst_totals.symm
  rw [hfirst, List.map_map]
  exact (List.map_id _).symm.trans (List.map_congr_left htotal)

end Totals

end EtherTrade.FirstKeys
