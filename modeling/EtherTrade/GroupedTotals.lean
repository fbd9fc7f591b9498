import Mathlib.Algebra.Order.BigOperators.Group.List
import Mathlib.Tactic.Ring
import EtherTrade.KeyedRows

/-!
# Totals by key

Rows are grouped by a key and their values are added up, in a map that keeps its keys in
the order in which they first came. Which keys have a total, and which one, depends
neither on that order nor on the order of the rows.
-/

namespace EtherTrade.GroupedTotals

open KeyedRows

universe u v w

variable {ρ : Type u} {κ : Type v} {M : Type w} [DecidableEq κ]

section Totals

variable [AddCommMonoid M] (key : ρ → κ) (value : ρ → M)

/-- The total of a key, if any row has it. -/
def totalAt (rows : List ρ) (k : κ) : Option M :=
  let group := rows.filter fun r => key r = k
  if group.isEmpty then none else some (group.map value).sum

/-- Add a value to what the map has under a key. -/
def addTo (totals : List (κ × M)) (k : κ) (x : M) : List (κ × M) :=
  if (lookup Prod.fst totals k).isSome then
    totals.map fun t => if t.1 = k then (t.1, t.2 + x) else t
  else totals ++ [(k, x)]

/-- The map after all rows. -/
def totals (rows : List ρ) : List (κ × M) :=
  rows.foldl (fun totals r => addTo totals (key r) (value r)) []

variable {key value} {rows rows' : List ρ} {r : ρ} {k k' : κ} {x : M}

theorem totalAt_append_singleton : totalAt key value (rows ++ [r]) k =
    if key r = k then some ((totalAt key value rows k).getD 0 + value r)
    else totalAt key value rows k := by
  by_cases hk : key r = k
  · cases hgroup : rows.filter fun r => key r = k <;>
      simp [totalAt, List.filter_append, hk, hgroup, add_assoc]
  · simp [totalAt, List.filter_append, hk]

/-- Rows with the same rows under a key have the same total there. -/
theorem totalAt_congr (h : (rows.filter fun r => key r = k) = rows'.filter fun r => key r = k) :
    totalAt key value rows k = totalAt key value rows' k := by
  rw [totalAt, totalAt, h]

theorem totalAt_perm (h : rows.Perm rows') :
    totalAt key value rows k = totalAt key value rows' k := by
  have hgroup := h.filter fun r => decide (key r = k)
  rw [totalAt, totalAt, (hgroup.map value).sum_eq, hgroup.isEmpty_eq]

theorem lookup_addTo (totals : List (κ × M)) : (lookup Prod.fst (addTo totals k x) k').map Prod.snd =
    if k = k' then some (((lookup Prod.fst totals k').map Prod.snd).getD 0 + x)
    else (lookup Prod.fst totals k').map Prod.snd := by
  unfold addTo
  split
  · next hfound =>
    rw [lookup_map fun t _ => by split <;> rfl]
    obtain ⟨t, ht⟩ := Option.isSome_iff_exists.mp hfound
    by_cases hk : k = k'
    · subst hk
      simp [ht, (lookup_mem ht).2]
    · cases ht' : lookup Prod.fst totals k' with
      | none => simp [hk]
      | some t' =>
        have hne : t'.1 ≠ k := fun heq => hk (heq.symm.trans (lookup_mem ht').2)
        simp [hk, hne]
  · next hmissing =>
    rw [lookup_append_singleton]
    by_cases hk : k = k'
    · subst hk
      rw [Bool.not_eq_true, Option.isSome_eq_false_iff, Option.isNone_iff_eq_none] at hmissing
      simp [hmissing]
    · simp [hk]

/-- The map has under each key the total of its rows. -/
theorem lookup_totals :
    (lookup Prod.fst (totals key value rows) k).map Prod.snd = totalAt key value rows k := by
  induction rows using List.reverseRecOn with
  | nil => rfl
  | append_singleton rows r ih =>
    rw [totals, List.foldl_append, List.foldl_cons, List.foldl_nil, lookup_addTo, ← totals, ih,
      totalAt_append_singleton]

/-- The total of a part of the values is that part of the total. -/
theorem map_totalAt {N : Type*} [AddCommMonoid N] (f : M →+ N) :
    (totalAt key value rows k).map f = totalAt key (f ∘ value) rows k := by
  cases hgroup : rows.filter fun r => key r = k <;> simp [totalAt, hgroup, map_list_sum]

end Totals

/-- A total of positive values is one that is not zero. -/
theorem totalAt_of_pos {key : ρ → κ} {value : ρ → ℤ} {rows : List ρ} {k : κ}
    (h : ∀ r ∈ rows, 0 < value r) : totalAt key value rows k =
      let sum := ((rows.filter fun r => key r = k).map value).sum
      if sum = 0 then none else some sum := by
  cases hgroup : rows.filter fun r => key r = k with
  | nil => simp [totalAt, hgroup]
  | cons r group =>
    have hpos : ∀ r' ∈ r :: group, 0 < value r' := fun r' hr' => by
      rw [← hgroup] at hr'
      exact h r' (List.mem_of_mem_filter hr')
    have hrest : 0 ≤ (group.map value).sum := List.sum_nonneg fun n hn => by
      obtain ⟨r', hr', rfl⟩ := List.mem_map.mp hn
      exact (hpos r' (List.mem_cons_of_mem _ hr')).le
    have hfirst := hpos r List.mem_cons_self
    have hne : value r + (group.map value).sum ≠ 0 := by omega
    simp [totalAt, hgroup, hne]

section Weights

variable {α : Type u} {xs ys : List α}

theorem sum_map_indicator [DecidableEq α] (xs : List α) (a : α) :
    (xs.map fun x => if x = a then (1 : ℤ) else 0).sum = xs.count a := by
  induction xs with
  | nil => rfl
  | cons x xs ih =>
    rw [List.map_cons, List.sum_cons, ih, List.count_cons]
    by_cases h : x = a <;> simp [h, add_comm]

/-- Lists have the same sum under all positive weights only if they have the same members, as
often each. -/
theorem sums_eq_iff_perm [DecidableEq α] :
    (∀ weight : α → ℤ, (∀ x, 0 < weight x) → (xs.map weight).sum = (ys.map weight).sum) ↔
      xs.Perm ys := by
  refine ⟨fun h => List.perm_iff_count.mpr fun a => ?_, fun h weight _ => (h.map weight).sum_eq⟩
  -- one weight counts every member once, the other one counts `a` twice
  have hones := h (fun _ => 1) fun _ => one_pos
  have htwice := h (fun x => 1 + if x = a then 1 else 0) fun x => by split <;> decide
  rw [List.sum_map_add, List.sum_map_add, sum_map_indicator, sum_map_indicator, hones] at htwice
  exact_mod_cast add_left_cancel htwice

end Weights

end EtherTrade.GroupedTotals
