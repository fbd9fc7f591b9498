import Mathlib.Algebra.BigOperators.Group.Finset.Basic
import Mathlib.Data.List.Nodup

/-!
# Tables as lists of rows with unique keys

A table is the list of its rows in insertion order. `lookup` reads a row by a key. A
transaction keeps the rows it wrote, by key, beside the table, and `merge` stores them.
-/

namespace EtherTrade.KeyedRows

universe u v

variable {ρ : Type u} {κ : Type v} [DecidableEq κ]

/-- The row with key `k`, the first one in insertion order. -/
def lookup (key : ρ → κ) (rows : List ρ) (k : κ) : Option ρ :=
  rows.find? fun r => key r = k

/-- The unique index on `key`. -/
def KeyUnique (key : ρ → κ) (rows : List ρ) : Prop := (rows.map key).Nodup

/-- The table after `written` is stored: new versions stand where the old ones stood, and
rows with new keys follow. -/
def merge (key : ρ → κ) (rows written : List ρ) : List ρ :=
  rows.map (fun r => (lookup key written (key r)).getD r) ++
    written.filter fun r => (lookup key rows (key r)).isNone

variable {key : ρ → κ} {rows written : List ρ} {r x : ρ} {k : κ}

theorem lookup_mem (h : lookup key rows k = some r) : r ∈ rows ∧ key r = k :=
  ⟨List.mem_of_find?_eq_some h, by simpa using List.find?_some h⟩

theorem lookup_eq_none : lookup key rows k = none ↔ ∀ r ∈ rows, key r ≠ k := by
  simp [lookup]

theorem lookup_eq_some (hu : KeyUnique key rows) :
    lookup key rows k = some r ↔ r ∈ rows ∧ key r = k := by
  refine ⟨lookup_mem, ?_⟩
  rintro ⟨hr, rfl⟩
  induction rows with
  | nil => simp at hr
  | cons y rows ih =>
    obtain ⟨hy, hn⟩ := List.nodup_cons.mp hu
    rcases List.mem_cons.mp hr with rfl | hr
    · simp [lookup]
    · have hne : key y ≠ key r := fun he => hy (he ▸ List.mem_map_of_mem hr)
      simpa [lookup, hne] using ih hn hr

/-- Two rows of a table with the same value of a unique key are one row. -/
theorem KeyUnique.eq (hu : KeyUnique key rows) (hr : r ∈ rows) (hx : x ∈ rows)
    (h : key r = key x) : r = x := by
  have h1 := (lookup_eq_some hu).mpr ⟨hr, h⟩
  have h2 := (lookup_eq_some hu).mpr ⟨hx, rfl⟩
  exact Option.some.inj (h1.symm.trans h2)

theorem lookup_append_singleton : lookup key (rows ++ [r]) k =
    (lookup key rows k).or (if key r = k then some r else none) := by
  by_cases h : key r = k <;> simp [lookup, List.find?_append, h]

omit [DecidableEq κ] in
theorem keyUnique_nil : KeyUnique key ([] : List ρ) := List.nodup_nil

theorem keyUnique_append_singleton (hu : KeyUnique key rows) (h : lookup key rows (key r) = none) :
    KeyUnique key (rows ++ [r]) := by
  rw [KeyUnique, List.map_append]
  refine List.Nodup.append hu (List.nodup_singleton _) ?_
  intro k hk hr
  obtain ⟨x, hx, rfl⟩ := List.mem_map.mp hk
  exact lookup_eq_none.mp h x hx (List.mem_singleton.mp hr)

/-- Rewriting rows without touching a key shows in every lookup by it. -/
theorem lookup_map {f : ρ → ρ} (h : ∀ r ∈ rows, key (f r) = key r) :
    lookup key (rows.map f) k = (lookup key rows k).map f := by
  induction rows with
  | nil => rfl
  | cons r rows ih =>
    have ih := ih fun x hx => h x (List.mem_cons_of_mem _ hx)
    have hr := h r List.mem_cons_self
    by_cases hk : key r = k
    · simp [lookup, hr, hk]
    · simpa [lookup, hr, hk] using ih

omit [DecidableEq κ] in
theorem keyUnique_map {f : ρ → ρ} (hu : KeyUnique key rows) (h : ∀ r ∈ rows, key (f r) = key r) :
    KeyUnique key (rows.map f) := by
  have hmap : (rows.map f).map key = rows.map key := by
    rw [List.map_map]
    exact List.map_congr_left h
  rw [KeyUnique, hmap]
  exact hu

theorem merge_nil : merge key rows [] = rows := by simp [merge, lookup]

private theorem key_getD_lookup (r : ρ) : key ((lookup key written (key r)).getD r) = key r := by
  cases h : lookup key written (key r) with
  | none => rfl
  | some x => exact (lookup_mem h).2

/-- A lookup finds what was written, and otherwise what was there. -/
theorem lookup_merge : lookup key (merge key rows written) k =
    (lookup key written k).or (lookup key rows k) := by
  have hold : lookup key (rows.map fun r => (lookup key written (key r)).getD r) k = _ :=
    lookup_map fun r _ => key_getD_lookup r
  rw [merge, lookup, List.find?_append, ← lookup, hold]
  cases hr : lookup key rows k with
  | some r =>
    obtain rfl := (lookup_mem hr).2
    cases h : lookup key written (key r) <;> simp [h]
  | none =>
    have hnew : (fun x => decide ((lookup key rows (key x)).isNone = true ∧
        decide (key x = k) = true)) = fun x => decide (key x = k) := by
      funext x
      by_cases hx : key x = k
      · simp [hx, hr]
      · simp [hx]
    rw [List.find?_filter, hnew, Option.map_none, Option.none_or, Option.or_none]
    rfl

theorem keyUnique_merge (hrows : KeyUnique key rows) (hwritten : KeyUnique key written) :
    KeyUnique key (merge key rows written) := by
  rw [KeyUnique, merge, List.map_append]
  refine List.Nodup.append (keyUnique_map hrows fun r _ => key_getD_lookup r)
    (hwritten.sublist (List.filter_sublist.map key)) ?_
  intro k hold hnew
  obtain ⟨x, hx, rfl⟩ := List.mem_map.mp hnew
  obtain ⟨y, hy, hk⟩ := List.mem_map.mp hold
  obtain ⟨r, hr, rfl⟩ := List.mem_map.mp hy
  have hnone : lookup key rows (key x) = none := by simpa using (List.mem_filter.mp hx).2
  exact lookup_eq_none.mp hnone r hr ((key_getD_lookup r).symm.trans hk)

/-- A sum over rows is one over any keys that they all have. -/
theorem sum_lookup {μ : Type*} [AddCommMonoid μ] {keys : Finset κ} (f : ρ → μ)
    (hu : KeyUnique key rows) (hkeys : ∀ r ∈ rows, key r ∈ keys) :
    (rows.map f).sum = ∑ k ∈ keys, ((lookup key rows k).map f).getD 0 := by
  have hrows : (rows.map f).sum =
      ((rows.map key).map fun k => ((lookup key rows k).map f).getD 0).sum := by
    rw [List.map_map]
    refine congrArg List.sum (List.map_congr_left fun r hr => ?_)
    rw [Function.comp_apply, (lookup_eq_some hu).mpr ⟨hr, rfl⟩, Option.map_some, Option.getD_some]
  rw [hrows, ← List.sum_toFinset _ hu]
  refine Finset.sum_subset (fun k hk => ?_) fun k _ hk => ?_
  · obtain ⟨r, hr, rfl⟩ := List.mem_map.mp (List.mem_toFinset.mp hk)
    exact hkeys r hr
  · have hnone : lookup key rows k = none := lookup_eq_none.mpr fun r hr hkey =>
      hk (List.mem_toFinset.mpr (List.mem_map.mpr ⟨r, hr, hkey⟩))
    rw [hnone, Option.map_none, Option.getD_none]

/-- A sum over rows when the row of one key is changed. -/
theorem sum_map_update {μ : Type*} [AddCommGroup μ] (hu : KeyUnique key rows) (hr : r ∈ rows)
    (g : ρ → ρ) (f : ρ → μ) :
    ((rows.map fun x => if key x = key r then g x else x).map f).sum =
      (rows.map f).sum - f r + f (g r) := by
  induction rows with
  | nil => cases hr
  | cons y rows ih =>
    obtain ⟨hy, hn⟩ := List.nodup_cons.mp hu
    simp only [List.map_cons, List.sum_cons]
    rcases List.mem_cons.mp hr with rfl | hr
    · have hrest : (rows.map fun x => if key x = key r then g x else x) = rows := by
        refine (List.map_congr_left fun x hx => if_neg fun hkey => hy ?_).trans (List.map_id rows)
        exact hkey ▸ List.mem_map_of_mem hx
      rw [if_pos rfl, hrest, add_sub_cancel_left, add_comm]
    · have hne : key y ≠ key r := fun hkey => hy (hkey ▸ List.mem_map_of_mem hr)
      rw [if_neg hne, ih hn hr, ← add_assoc, ← add_sub_assoc]

omit [DecidableEq κ] in
/-- A sum over rows is one over their positions. -/
theorem sum_range_getElem {μ : Type*} [AddCommMonoid μ] (f : ρ → μ) (rows : List ρ) :
    ∑ n ∈ Finset.range rows.length, (rows[n]?.map f).getD 0 = (rows.map f).sum := by
  induction rows with
  | nil => rfl
  | cons r rows ih =>
    rw [List.length_cons, Finset.sum_range_succ', List.map_cons, List.sum_cons, add_comm]
    simp only [List.getElem?_cons_succ, ih]
    rfl

/-- The only row with a value of a unique key. -/
theorem filter_eq_of_lookup (hu : KeyUnique key rows) (h : lookup key rows k = some r) :
    rows.filter (fun x => key x = k) = [r] := by
  induction rows with
  | nil => cases h
  | cons y rows ih =>
    obtain ⟨hy, hn⟩ := List.nodup_cons.mp hu
    by_cases hk : key y = k
    · have hrest : rows.filter (fun x => key x = k) = [] := by
        refine List.filter_eq_nil_iff.mpr fun x hx hxk => hy ?_
        rw [hk, ← of_decide_eq_true hxk]
        exact List.mem_map_of_mem hx
      have hr : r = y := by simpa [lookup, hk, eq_comm] using h
      rw [List.filter_cons_of_pos (by simpa using hk), hrest, hr]
    · rw [List.filter_cons_of_neg (by simpa using hk)]
      refine ih hn ?_
      simpa [lookup, hk] using h

end EtherTrade.KeyedRows
