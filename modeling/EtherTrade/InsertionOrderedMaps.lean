import Mathlib.Data.List.Induction
import Mathlib.Data.List.Nodup
import Mathlib.Data.List.Perm.Basic

/-!
# Maps in the order of insertion

A `Map` as the list of its entries: a new key goes to the end, and a key that is there keeps its
place. Rows are grouped by a key in such a map, and nothing is lost or changes its order under
a key.
-/

namespace EtherTrade.InsertionOrderedMaps

universe u v w

variable {κ : Type u} {β : Type v} {ρ : Type w} [DecidableEq κ]

def get : List (κ × β) → κ → Option β
  | [], _ => none
  | (k', x) :: entries, k => if k' = k then some x else get entries k

def set : List (κ × β) → κ → β → List (κ × β)
  | [], k, x => [(k, x)]
  | (k', y) :: entries, k, x => if k' = k then (k', x) :: entries else (k', y) :: set entries k x

theorem get_set (entries : List (κ × β)) (k k' : κ) (x : β) :
    get (set entries k x) k' = if k = k' then some x else get entries k' := by
  induction entries with
  | nil => rfl
  | cons entry entries ih =>
    obtain ⟨key, y⟩ := entry
    by_cases hkey : key = k
    · subst hkey
      by_cases hk' : key = k' <;> simp [set, get, hk']
    · by_cases hk' : key = k'
      · subst hk'
        simp [set, get, hkey, Ne.symm hkey]
      · simp [set, get, hkey, hk', ih]

theorem mem_keys_set {entries : List (κ × β)} {k k' : κ} {x : β} :
    k' ∈ (set entries k x).map Prod.fst ↔ k' ∈ entries.map Prod.fst ∨ k' = k := by
  induction entries with
  | nil => simp [set]
  | cons entry entries ih =>
    obtain ⟨key, y⟩ := entry
    rw [set]
    split_ifs with hkey
    · subst hkey
      simp only [List.map_cons, List.mem_cons]
      exact ⟨.inl, fun h => h.elim id .inl⟩
    · rw [List.map_cons, List.mem_cons, ih, List.map_cons, List.mem_cons, or_assoc]

theorem nodup_keys_set {entries : List (κ × β)} (h : (entries.map Prod.fst).Nodup) (k : κ) (x : β) :
    ((set entries k x).map Prod.fst).Nodup := by
  induction entries with
  | nil => simp [set]
  | cons entry entries ih =>
    obtain ⟨key, y⟩ := entry
    rw [List.map_cons, List.nodup_cons] at h
    rw [set]
    split_ifs with hkey
    · exact List.nodup_cons.mpr h
    · rw [List.map_cons, List.nodup_cons, mem_keys_set]
      exact ⟨fun hmem => hmem.elim h.1 hkey, ih h.2⟩

theorem get_eq_some {entries : List (κ × β)} (h : (entries.map Prod.fst).Nodup) {k : κ} {x : β} :
    get entries k = some x ↔ (k, x) ∈ entries := by
  induction entries with
  | nil => simp [get]
  | cons entry entries ih =>
    obtain ⟨key, y⟩ := entry
    rw [List.map_cons, List.nodup_cons] at h
    rw [get, List.mem_cons, Prod.mk.injEq]
    split_ifs with hkey
    · subst hkey
      rw [Option.some.injEq]
      constructor
      · rintro rfl
        exact .inl ⟨rfl, rfl⟩
      · rintro (⟨-, rfl⟩ | hmem)
        · rfl
        · exact absurd (List.mem_map_of_mem hmem) h.1
    · rw [ih h.2, or_iff_right fun same => hkey same.1.symm]

/-! ### Groups -/

section Groups

variable {ν : Type v} (key : ρ → κ) (value : ρ → ν)

/-- `map.set(key, [...(map.get(key) || []), value])` -/
def push (groups : List (κ × List ν)) (k : κ) (x : ν) : List (κ × List ν) :=
  set groups k ((get groups k).getD [] ++ [x])

def group (rows : List ρ) : List (κ × List ν) :=
  rows.foldl (fun groups r => push groups (key r) (value r)) []

/-- Every value with the key of its group. -/
def ungroup (groups : List (κ × List ν)) : List (κ × ν) :=
  groups.flatMap fun entry => entry.2.map fun x => (entry.1, x)

theorem group_concat (rows : List ρ) (r : ρ) :
    group key value (rows ++ [r]) = push (group key value rows) (key r) (value r) := by
  rw [group, List.foldl_append]
  rfl

theorem nodup_keys_group (rows : List ρ) : ((group key value rows).map Prod.fst).Nodup := by
  induction rows using List.reverseRecOn with
  | nil => exact List.nodup_nil
  | append_singleton rows r ih =>
    rw [group_concat]
    exact nodup_keys_set ih _ _

/-- Under a key are the values of its rows, in their order. -/
theorem get_group (rows : List ρ) (k : κ) :
    get (group key value rows) k =
      if rows.filter (fun r => key r = k) = [] then none
      else some ((rows.filter fun r => key r = k).map value) := by
  induction rows using List.reverseRecOn with
  | nil => rfl
  | append_singleton rows r ih =>
    rw [group_concat, push, get_set, List.filter_append]
    by_cases hk : key r = k
    · subst hk
      rw [ih]
      split_ifs with hnone <;> simp_all
    · rw [if_neg hk, ih]
      simp [hk]

theorem mem_group {rows : List ρ} {k : κ} {xs : List ν} :
    (k, xs) ∈ group key value rows ↔
      xs ≠ [] ∧ xs = (rows.filter fun r => key r = k).map value := by
  rw [← get_eq_some (nodup_keys_group key value rows), get_group]
  split_ifs with hnone
  · simp [hnone]
  · rw [Option.some.injEq]
    constructor
    · rintro rfl
      exact ⟨by simpa using hnone, rfl⟩
    · rintro ⟨-, rfl⟩
      rfl

omit [DecidableEq κ] in
theorem ungroup_cons (k : κ) (xs : List ν) (groups : List (κ × List ν)) :
    ungroup ((k, xs) :: groups) = xs.map (fun x => (k, x)) ++ ungroup groups := rfl

/-- Where every key has one entry, the values found under a key are those of its entry. -/
theorem flatMap_filter_key {groups : List (κ × List ν)} (h : (groups.map Prod.fst).Nodup) (k : κ) :
    (groups.filter fun entry => entry.1 = k).flatMap Prod.snd = (get groups k).getD [] := by
  induction groups with
  | nil => rfl
  | cons entry groups ih =>
    obtain ⟨key, xs⟩ := entry
    rw [List.map_cons, List.nodup_cons] at h
    rw [get, List.filter_cons]
    by_cases hkey : key = k
    · subst hkey
      have alone : (groups.filter fun entry => entry.1 = key) = [] := by
        rw [List.filter_eq_nil_iff]
        exact fun entry hmem same =>
          h.1 (List.mem_map.mpr ⟨entry, hmem, of_decide_eq_true same⟩)
      simp [alone]
    · rw [if_neg (by simpa using hkey), if_neg hkey, ih h.2]

theorem ungroup_push (groups : List (κ × List ν)) (k : κ) (x : ν) :
    (ungroup (push groups k x)).Perm (ungroup groups ++ [(k, x)]) := by
  induction groups with
  | nil => exact .refl _
  | cons entry groups ih =>
    obtain ⟨key, xs⟩ := entry
    by_cases hkey : key = k
    · subst hkey
      have pushed : push ((key, xs) :: groups) key x = (key, xs ++ [x]) :: groups := by
        simp [push, get, set]
      rw [pushed, ungroup_cons, ungroup_cons, List.map_append, List.append_assoc,
        List.append_assoc]
      exact List.perm_append_comm.append_left _
    · have pushed : push ((key, xs) :: groups) k x = (key, xs) :: push groups k x := by
        simp [push, get, set, hkey]
      rw [pushed, ungroup_cons, ungroup_cons, List.append_assoc]
      exact ih.append_left _

/-- No value is lost, and none is there twice. -/
theorem ungroup_group (rows : List ρ) :
    (ungroup (group key value rows)).Perm (rows.map fun r => (key r, value r)) := by
  induction rows using List.reverseRecOn with
  | nil => exact .refl _
  | append_singleton rows r ih =>
    rw [group_concat, List.map_append]
    exact (ungroup_push _ _ _).trans (ih.append_right _)

end Groups

end EtherTrade.InsertionOrderedMaps
