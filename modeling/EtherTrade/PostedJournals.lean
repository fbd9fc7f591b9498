import Mathlib.Algebra.BigOperators.Group.List.Basic
import Mathlib.Data.List.Nodup
import Mathlib.Tactic.Abel

/-!
# Journals of postings and the balances they explain

Books hold a balance for every account and a journal of postings in the order they
were made. A posting records the account, the change and the balance after it. The
books are balanced when the journal explains them: each balance is the sum of the
account's changes, and each recorded balance is the sum up to its posting.
-/

namespace EtherTrade.PostedJournals

universe u v

structure Posting (A : Type u) (M : Type v) where
  account : A
  change : M
  balanceAfter : M

structure Books (A : Type u) (M : Type v) where
  balance : A → M
  journal : List (Posting A M)

variable {A : Type u} [DecidableEq A] {M : Type v} [AddCommGroup M]

/-- What a list of changes adds to account `a`. -/
def totalChange (ps : List (A × M)) (a : A) : M :=
  ((ps.filter fun p => p.1 = a).map Prod.snd).sum

@[simp] theorem totalChange_nil (a : A) : totalChange ([] : List (A × M)) a = 0 := rfl

theorem totalChange_cons (c a : A) (change : M) (ps : List (A × M)) :
    totalChange ((c, change) :: ps) a = (if c = a then change else 0) + totalChange ps a := by
  by_cases h : c = a <;> simp [totalChange, h]

/-- An account that is not listed does not change. -/
theorem totalChange_of_notMem {ps : List (A × M)} {a : A} (h : a ∉ ps.map Prod.fst) :
    totalChange ps a = 0 := by
  induction ps with
  | nil => rfl
  | cons p ps ih =>
    simp only [List.map_cons, List.mem_cons, not_or] at h
    rw [totalChange_cons, if_neg (Ne.symm h.1), ih h.2, add_zero]

namespace Books

/-- The postings of one account, in the order they were made. -/
def postings (b : Books A M) (a : A) : List (Posting A M) :=
  b.journal.filter fun p => p.account = a

/-- The journal explains the balances. -/
structure Balanced (b : Books A M) : Prop where
  balance_eq : ∀ a, b.balance a = ((b.postings a).map Posting.change).sum
  balanceAfter_eq : ∀ a earlier p later, b.postings a = earlier ++ p :: later →
    p.balanceAfter = ((earlier ++ [p]).map Posting.change).sum

def empty : Books A M := ⟨fun _ => 0, []⟩

/-- Change the balance of `a` and record it. -/
def post (b : Books A M) (a : A) (change : M) : Books A M where
  balance := Function.update b.balance a (b.balance a + change)
  journal := b.journal ++ [⟨a, change, b.balance a + change⟩]

def postAll : Books A M → List (A × M) → Books A M
  | b, [] => b
  | b, (a, change) :: rest => (b.post a change).postAll rest

variable {b : Books A M}

omit [AddCommGroup M] in
@[simp] theorem postings_nil {f : A → M} {a : A} : postings ⟨f, []⟩ a = [] := rfl

theorem postings_post_self (a : A) (change : M) :
    (b.post a change).postings a = b.postings a ++ [⟨a, change, b.balance a + change⟩] := by
  simp [postings, post, List.filter_append]

theorem postings_post_of_ne {a c : A} (h : a ≠ c) (change : M) :
    (b.post a change).postings c = b.postings c := by
  simp [postings, post, List.filter_append, h]

theorem Balanced.empty : (Books.empty : Books A M).Balanced := by
  constructor
  · simp [Books.empty]
  · intro a earlier p later h
    simp [Books.empty] at h

/-- A posting that records the balance it leaves keeps the books balanced. -/
theorem Balanced.post (hb : b.Balanced) (a : A) (change : M) : (b.post a change).Balanced := by
  constructor
  · intro c
    by_cases hc : a = c
    · subst hc
      rw [postings_post_self]
      simp [Books.post, hb.balance_eq a]
    · rw [postings_post_of_ne hc, ← hb.balance_eq c]
      simp [Books.post, Function.update_of_ne (Ne.symm hc)]
  · intro c earlier p later h
    by_cases hc : a = c
    · subst hc
      rw [postings_post_self] at h
      rcases List.eq_nil_or_concat later with rfl | ⟨init, last, rfl⟩
      · obtain ⟨he, hp⟩ := List.append_inj' h rfl
        obtain rfl := (List.cons.inj hp).1
        simp [← he, hb.balance_eq a]
      · have h' : b.postings a ++ [⟨a, change, b.balance a + change⟩] =
            (earlier ++ p :: init) ++ [last] := by simpa using h
        exact hb.balanceAfter_eq a earlier p init (List.append_inj' h' rfl).1
    · rw [postings_post_of_ne hc] at h
      exact hb.balanceAfter_eq c earlier p later h

theorem Balanced.postAll (hb : b.Balanced) (ps : List (A × M)) : (b.postAll ps).Balanced := by
  induction ps generalizing b with
  | nil => exact hb
  | cons p ps ih => exact ih (hb.post p.1 p.2)

/-- Only the postings to an account change its balance. -/
theorem balance_postAll (b : Books A M) (ps : List (A × M)) (a : A) :
    (b.postAll ps).balance a = b.balance a + totalChange ps a := by
  induction ps generalizing b with
  | nil => simp [Books.postAll]
  | cons p ps ih =>
    rw [Books.postAll, ih, totalChange_cons, ← add_assoc]
    by_cases h : p.1 = a
    · simp [Books.post, h]
    · simp [Books.post, h, Function.update_of_ne (Ne.symm h)]

/-- When no account is changed twice, each change is recorded with the balance it started
from. -/
theorem journal_postAll (b : Books A M) {ps : List (A × M)} (hps : (ps.map Prod.fst).Nodup) :
    (b.postAll ps).journal =
      b.journal ++ ps.map fun p => ⟨p.1, p.2, b.balance p.1 + p.2⟩ := by
  induction ps generalizing b with
  | nil => simp [Books.postAll]
  | cons p ps ih =>
    obtain ⟨hp, hn⟩ := List.nodup_cons.mp hps
    have hrest : ∀ q ∈ ps, (b.post p.1 p.2).balance q.1 = b.balance q.1 := by
      intro q hq
      have hne : q.1 ≠ p.1 := fun he => hp (he ▸ List.mem_map_of_mem hq)
      exact Function.update_of_ne hne _ _
    have hmap : (ps.map fun q => (⟨q.1, q.2, (b.post p.1 p.2).balance q.1 + q.2⟩ : Posting A M)) =
        ps.map fun q => ⟨q.1, q.2, b.balance q.1 + q.2⟩ := by
      apply List.map_congr_left
      intro q hq
      rw [hrest q hq]
    rw [Books.postAll, ih _ hn, hmap]
    simp [Books.post]

/-- The balances of distinct accounts add up to the changes posted to any of them. -/
theorem Balanced.sum_balance (hb : b.Balanced) {as : List A} (has : as.Nodup) :
    (as.map b.balance).sum = ((b.journal.filter fun p => p.account ∈ as).map Posting.change).sum := by
  induction as with
  | nil => simp
  | cons a as ih =>
    obtain ⟨ha, hn⟩ := List.nodup_cons.mp has
    rw [List.map_cons, List.sum_cons, ih hn, hb.balance_eq a, postings]
    clear hb ih
    simp only [List.mem_cons]
    induction b.journal with
    | nil => simp
    | cons p ps ih =>
      by_cases hp : p.account = a
      · simp only [List.filter_cons, hp, decide_true, if_true, List.map_cons, List.sum_cons,
          true_or, ha, decide_false, Bool.false_eq_true, if_false]
        rw [← ih]
        abel
      · by_cases hm : p.account ∈ as
        · simp only [List.filter_cons, hp, hm, decide_false, decide_true, Bool.false_eq_true,
            if_false, if_true, List.map_cons, List.sum_cons, or_true]
          rw [← ih]
          abel
        · simpa [List.filter_cons, hp, hm] using ih

end Books

end EtherTrade.PostedJournals
