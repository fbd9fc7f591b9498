import Mathlib.Algebra.Order.Field.Rat
import Mathlib.Computability.RegularExpressions
import Mathlib.Data.List.DropRight
import Mathlib.Data.List.Induction
import Mathlib.Data.Rat.Floor
import Mathlib.Tactic.IntervalCases
import Mathlib.Tactic.LinearCombination

/-!
# Decimal numerals

Numbers in plain notation: digits without a superfluous zero in front, and behind a point some
more digits. Without zeros at its end a numeral is the only one of its value.
-/

namespace EtherTrade.DecimalNumerals

/-! ### Digits -/

def Digits (text : List Char) : Prop := ∀ c ∈ text, c.isDigit = true

instance (text : List Char) : Decidable (Digits text) := List.decidableBAll _ text

def digitsValue (text : List Char) : ℕ := Nat.ofDigitChars 10 text 0

variable {text other : List Char} {c d : Char}

theorem digit_cases (h : c.isDigit = true) : ∃ n < 10, c = Nat.digitChar n := by
  have between := Char.isDigit_iff_toNat.mp h
  have low : 48 ≤ c.toNat := between.1
  have high : c.toNat ≤ 57 := between.2
  refine ⟨c.toNat - 48, by omega, ?_⟩
  conv_lhs => rw [← Char.ofNat_toNat c]
  generalize c.toNat = n at low high
  interval_cases n <;> rfl

theorem Digits.concat (h : Digits (text ++ [c])) : Digits text ∧ c.isDigit = true :=
  ⟨fun d hd => h d (List.mem_append_left _ hd), h c (List.mem_append_right _ List.mem_cons_self)⟩

theorem digitsValue_concat (text : List Char) {n : ℕ} (hn : n < 10) :
    digitsValue (text ++ [Nat.digitChar n]) = 10 * digitsValue text + n := by
  rw [digitsValue, Nat.ofDigitChars_append, Nat.ofDigitChars_cons_digitChar_of_lt_ten hn,
    Nat.ofDigitChars_nil]
  rfl

theorem digitsValue_zeros (text : List Char) (k : ℕ) :
    digitsValue (text ++ List.replicate k '0') = digitsValue text * 10 ^ k := by
  rw [digitsValue, Nat.ofDigitChars_append, Nat.ofDigitChars_replicate_zero, Nat.mul_comm]
  rfl

theorem zeros_digitsValue (k : ℕ) (text : List Char) :
    digitsValue (List.replicate k '0' ++ text) = digitsValue text := by
  rw [digitsValue, Nat.ofDigitChars_append, Nat.ofDigitChars_replicate_zero, Nat.mul_zero]
  rfl

theorem digitsValue_toDigits (n : ℕ) : digitsValue (Nat.toDigits 10 n) = n :=
  Nat.ofDigitChars_ten_toDigits

theorem digitsValue_lt (h : Digits text) : digitsValue text < 10 ^ text.length := by
  induction text using List.reverseRecOn with
  | nil => decide
  | append_singleton text c ih =>
    obtain ⟨n, hn, rfl⟩ := digit_cases h.concat.2
    have := ih h.concat.1
    rw [digitsValue_concat text hn, List.length_append, List.length_singleton, Nat.pow_succ]
    omega

/-- As many digits with the same value are the same. -/
theorem eq_of_digitsValue (h : Digits text) (h' : Digits other)
    (length : text.length = other.length) (same : digitsValue text = digitsValue other) :
    text = other := by
  induction text using List.reverseRecOn generalizing other with
  | nil => exact (List.length_eq_zero_iff.mp length.symm).symm
  | append_singleton text c ih =>
    cases other using List.reverseRecOn with
    | nil => simp at length
    | append_singleton other d =>
      obtain ⟨m, hm, rfl⟩ := digit_cases h.concat.2
      obtain ⟨n, hn, rfl⟩ := digit_cases h'.concat.2
      rw [digitsValue_concat text hm, digitsValue_concat other hn] at same
      rw [List.length_append, List.length_append] at length
      obtain rfl : m = n := by omega
      rw [ih h.concat.1 h'.concat.1 (by simpa using length) (by omega)]

theorem digits_toDigits (n : ℕ) : Digits (Nat.toDigits 10 n) :=
  fun _ hc => Nat.isDigit_of_mem_toDigits (by decide) (by decide) hc

/-! ### Whole numbers -/

/-- Digits with no zero in front of others. -/
def Whole (text : List Char) : Prop :=
  text ≠ [] ∧ Digits text ∧ (text.head? = some '0' → text = ['0'])

instance (text : List Char) : Decidable (Whole text) :=
  inferInstanceAs (Decidable (_ ∧ _ ∧ (_ → _)))

theorem whole_toDigits (n : ℕ) : Whole (Nat.toDigits 10 n) := by
  refine ⟨Nat.toDigits_ne_nil, digits_toDigits n, ?_⟩
  induction n using Nat.strong_induction_on with
  | _ n ih =>
    intro zero
    rcases lt_or_ge n 10 with small | large
    · rw [Nat.toDigits_of_lt_base small] at zero ⊢
      rw [Option.some.inj zero]
    · rw [Nat.toDigits_of_base_le (by decide) large,
        List.head?_append_of_ne_nil _ Nat.toDigits_ne_nil] at zero
      have nothing := congrArg digitsValue (ih (n / 10) (by omega) zero)
      rw [digitsValue_toDigits] at nothing
      have : digitsValue ['0'] = 0 := rfl
      omega

/-- The digits of a whole number are the ones that its value is written with. -/
theorem Whole.eq_toDigits (h : Whole text) : text = Nat.toDigits 10 (digitsValue text) := by
  induction text using List.reverseRecOn with
  | nil => exact absurd rfl h.1
  | append_singleton text c ih =>
    obtain ⟨n, hn, rfl⟩ := digit_cases h.2.1.concat.2
    rw [digitsValue_concat text hn]
    by_cases hnil : text = []
    · subst hnil
      rw [digitsValue, Nat.ofDigitChars_nil, Nat.toDigits_of_lt_base (by omega)]
      simp
    · have front : text.head? ≠ some '0' := by
        intro zero
        have alone := h.2.2 (by rwa [List.head?_append_of_ne_nil _ hnil])
        have length := congrArg List.length alone
        rw [List.length_append, List.length_singleton, List.length_singleton] at length
        exact hnil (List.length_eq_zero_iff.mp (by omega))
      have written := ih ⟨hnil, h.2.1.concat.1, fun zero => absurd zero front⟩
      have positive : digitsValue text ≠ 0 := by
        intro zero
        rw [zero] at written
        exact front (by rw [written]; rfl)
      rw [Nat.toDigits_of_base_le (by decide) (by omega),
        show (10 * digitsValue text + n) / 10 = digitsValue text by omega,
        show (10 * digitsValue text + n) % 10 = n by omega, ← written]

/-! ### Numerals -/

/-- The digits before the point and those behind it. -/
@[ext]
structure Numeral where
  whole : List Char
  places : List Char
  isWhole : Whole whole
  areDigits : Digits places
  deriving DecidableEq

namespace Numeral

def chars (n : Numeral) : List Char :=
  n.whole ++ if n.places = [] then [] else '.' :: n.places

def value (n : Numeral) : ℚ := digitsValue n.whole + digitsValue n.places / 10 ^ n.places.length

/-- Without the zeros at the end of the places. -/
def shortest (n : Numeral) : Numeral where
  whole := n.whole
  places := n.places.rdropWhile (· = '0')
  isWhole := n.isWhole
  areDigits := fun c hc => n.areDigits c ((List.rdropWhile_prefix _ _).subset hc)

variable (n m : Numeral)

theorem value_nonneg : 0 ≤ n.value := by
  unfold value
  positivity

theorem shortest_shortest : n.shortest.shortest = n.shortest := by
  ext1
  · rfl
  · exact List.rdropWhile_idempotent _ _

theorem shortest_length_le : n.shortest.places.length ≤ n.places.length :=
  (List.rdropWhile_prefix _ _).length_le

theorem rdropWhile_zeros (text : List Char) (k : ℕ) :
    (text ++ List.replicate k '0').rdropWhile (· = '0') = text.rdropWhile (· = '0') := by
  induction k with
  | zero => rw [List.replicate_zero, List.append_nil]
  | succ k ih =>
    rw [List.replicate_succ', ← List.append_assoc, List.rdropWhile_concat_pos _ _ _ (by decide), ih]

/-- The zeros at the end do not count. -/
theorem value_shortest : n.shortest.value = n.value := by
  have zeros : n.places.rtakeWhile (· = '0') =
      List.replicate (n.places.rtakeWhile (· = '0')).length '0' :=
    List.eq_replicate_of_mem fun c hc => by simpa using List.mem_rtakeWhile_imp hc
  have split : n.places = n.shortest.places ++
      List.replicate (n.places.rtakeWhile (· = '0')).length '0' := by
    rw [← zeros]
    exact List.rdropWhile_append_rtakeWhile.symm
  generalize (n.places.rtakeWhile (· = '0')).length = k at split
  have behind : (digitsValue n.places : ℚ) / 10 ^ n.places.length =
      digitsValue n.shortest.places / 10 ^ n.shortest.places.length := by
    rw [split, digitsValue_zeros, List.length_append, List.length_replicate, pow_add]
    push_cast
    exact mul_div_mul_right _ _ (by positivity)
  rw [value, value, behind]
  rfl

theorem fraction_lt_one : (digitsValue n.places : ℚ) / 10 ^ n.places.length < 1 := by
  rw [div_lt_one (by positivity)]
  exact_mod_cast digitsValue_lt n.areDigits

theorem floor_value : ⌊n.value⌋ = digitsValue n.whole := by
  rw [Int.floor_eq_iff, value]
  have low : (0 : ℚ) ≤ digitsValue n.places / 10 ^ n.places.length := by positivity
  have high := n.fraction_lt_one
  push_cast
  constructor <;> linarith

/-- Places of one fraction differ by zeros at the end. -/
theorem places_eq_append {text other : List Char} (h : Digits text) (h' : Digits other)
    (length : text.length ≤ other.length)
    (same : (digitsValue text : ℚ) / 10 ^ text.length = digitsValue other / 10 ^ other.length) :
    other = text ++ List.replicate (other.length - text.length) '0' := by
  refine eq_of_digitsValue h' ?_ ?_ ?_
  · intro c hc
    rcases List.mem_append.mp hc with hc | hc
    · exact h c hc
    · rw [List.eq_of_mem_replicate hc]
      decide
  · rw [List.length_append, List.length_replicate]
    omega
  · rw [digitsValue_zeros]
    rw [div_eq_div_iff (by positivity) (by positivity)] at same
    have crossed : digitsValue text * 10 ^ other.length = digitsValue other * 10 ^ text.length := by
      exact_mod_cast same
    have power : 10 ^ other.length = 10 ^ (other.length - text.length) * 10 ^ text.length := by
      rw [← Nat.pow_add, Nat.sub_add_cancel length]
    rw [power, ← Nat.mul_assoc] at crossed
    exact (Nat.mul_right_cancel (by positivity) crossed).symm

/-- A number has only one numeral without zeros at its end. -/
theorem shortest_eq_of_value (same : n.value = m.value) : n.shortest = m.shortest := by
  have floors := congrArg Int.floor same
  rw [floor_value, floor_value, Int.natCast_inj] at floors
  have whole : n.whole = m.whole := by
    rw [n.isWhole.eq_toDigits, m.isWhole.eq_toDigits, floors]
  have fractions : (digitsValue n.places : ℚ) / 10 ^ n.places.length =
      digitsValue m.places / 10 ^ m.places.length := by
    rw [value, value, floors] at same
    exact add_left_cancel same
  have dropped : n.places.rdropWhile (· = '0') = m.places.rdropWhile (· = '0') := by
    rcases le_total n.places.length m.places.length with length | length
    · rw [places_eq_append n.areDigits m.areDigits length fractions, rdropWhile_zeros]
    · rw [places_eq_append m.areDigits n.areDigits length fractions.symm, rdropWhile_zeros]
  exact Numeral.ext whole dropped

end Numeral

/-! ### Reading -/

def read (text : List Char) : Option Numeral :=
  let whole := text.takeWhile Char.isDigit
  if isWhole : Whole whole then
    match text.dropWhile Char.isDigit with
    | [] => some ⟨whole, [], isWhole, by decide⟩
    | c :: places =>
      if areDigits : (c = '.' ∧ places ≠ []) ∧ Digits places then
        some ⟨whole, places, isWhole, areDigits.2⟩
      else none
  else none

theorem span_digits {whole : List Char} (h : Digits whole) {rest : List Char}
    (stop : ∀ c ∈ rest.head?, c.isDigit = false) :
    (whole ++ rest).takeWhile Char.isDigit = whole ∧
      (whole ++ rest).dropWhile Char.isDigit = rest := by
  rw [List.takeWhile_append_of_pos h, List.dropWhile_append_of_pos h]
  cases rest with
  | nil => simp
  | cons c rest =>
    have notDigit : ¬ c.isDigit = true := by simpa using stop c rfl
    refine ⟨?_, List.dropWhile_cons_of_neg notDigit⟩
    rw [List.takeWhile_cons_of_neg notDigit, List.append_nil]

theorem read_chars (n : Numeral) : read n.chars = some n := by
  obtain ⟨whole, places, isWhole, areDigits⟩ := n
  by_cases none : places = []
  · subst none
    obtain ⟨front, back⟩ := span_digits isWhole.2.1 (show ∀ c ∈ [].head?, _ by simp)
    rw [List.append_nil] at front back
    simp only [read, Numeral.chars, if_true, List.append_nil, front, back, dif_pos isWhole]
  · obtain ⟨front, back⟩ := span_digits isWhole.2.1
      (show ∀ c ∈ ('.' :: places).head?, c.isDigit = false by simp)
    simp only [read, Numeral.chars, if_neg none, front, back, dif_pos isWhole]
    exact dif_pos ⟨⟨trivial, none⟩, areDigits⟩

/-- The number that a text is the plain notation of. -/
def denotes (text : String) : Option ℚ := (read text.toList).map Numeral.value

theorem denotes_chars (n : Numeral) : denotes (String.ofList n.chars) = some n.value := by
  rw [denotes, String.toList_ofList, read_chars, Option.map_some]

/-! ### A pattern -/

section Pattern

/-- One character of a class. -/
def oneOf (chars : List Char) : RegularExpression Char :=
  chars.foldr (fun c pattern => .char c + pattern) 0

/-- At most so many times. -/
def upTo (pattern : RegularExpression Char) : ℕ → RegularExpression Char
  | 0 => 1
  | n + 1 => 1 + pattern * upTo pattern n

variable {chars : List Char}

theorem rmatch_oneOf : (oneOf chars).rmatch text = true ↔ ∃ c ∈ chars, text = [c] := by
  induction chars with
  | nil => simp [oneOf, RegularExpression.zero_rmatch]
  | cons c chars ih =>
    rw [oneOf, List.foldr_cons, ← oneOf, RegularExpression.add_rmatch_iff,
      RegularExpression.char_rmatch_iff, ih]
    simp

theorem rmatch_upTo {n : ℕ} :
    (upTo (oneOf chars) n).rmatch text = true ↔ text.length ≤ n ∧ ∀ c ∈ text, c ∈ chars := by
  induction n generalizing text with
  | zero =>
    rw [upTo, RegularExpression.one_rmatch_iff, Nat.le_zero, List.length_eq_zero_iff]
    exact ⟨fun h => ⟨h, by simp [h]⟩, And.left⟩
  | succ n ih =>
    rw [upTo, RegularExpression.add_rmatch_iff, RegularExpression.one_rmatch_iff,
      RegularExpression.mul_rmatch_iff]
    constructor
    · rintro (rfl | ⟨front, back, rfl, hfront, hback⟩)
      · simp
      · obtain ⟨c, hc, rfl⟩ := rmatch_oneOf.mp hfront
        obtain ⟨length, all⟩ := ih.mp hback
        refine ⟨by simpa using length, ?_⟩
        rintro d (_ | ⟨_, hd⟩)
        · exact hc
        · exact all d hd
    · rintro ⟨length, all⟩
      cases text with
      | nil => exact .inl rfl
      | cons c text =>
        refine .inr ⟨[c], text, rfl, rmatch_oneOf.mpr ⟨c, all c List.mem_cons_self, rfl⟩, ?_⟩
        exact ih.mpr ⟨Nat.le_of_succ_le_succ length, fun d hd => all d (List.mem_cons_of_mem _ hd)⟩

theorem rmatch_star : (oneOf chars).star.rmatch text = true ↔ ∀ c ∈ text, c ∈ chars := by
  rw [RegularExpression.star_rmatch_iff]
  constructor
  · rintro ⟨parts, rfl, all⟩ c hc
    obtain ⟨part, hpart, hc⟩ := List.mem_flatten.mp hc
    obtain ⟨d, hd, rfl⟩ := rmatch_oneOf.mp (all part hpart).2
    rwa [List.mem_singleton.mp hc]
  · intro all
    refine ⟨text.map fun c => [c], ?_, fun part hpart => ?_⟩
    · rw [← List.flatMap_def, List.flatMap_singleton']
    obtain ⟨c, hc, rfl⟩ := List.mem_map.mp hpart
    exact ⟨List.cons_ne_nil c [], rmatch_oneOf.mpr ⟨c, all c hc, rfl⟩⟩

def digitPattern : RegularExpression Char := oneOf "0123456789".toList

/-- `(0|[1-9]\d*)(\.\d{1,d+1})?` -/
def numeralPattern (d : ℕ) : RegularExpression Char :=
  (.char '0' + oneOf "123456789".toList * digitPattern.star) *
    (1 + .char '.' * (digitPattern * upTo digitPattern d))

theorem mem_digits : c ∈ "0123456789".toList ↔ c.isDigit = true := by
  constructor
  · have all : Digits "0123456789".toList := by decide
    exact all c
  · intro h
    obtain ⟨n, hn, rfl⟩ := digit_cases h
    interval_cases n <;> decide

theorem mem_digits_iff : c ∈ "123456789".toList ↔ c.isDigit = true ∧ c ≠ '0' := by
  rw [← mem_digits]
  have split : "0123456789".toList = '0' :: "123456789".toList := rfl
  rw [split, List.mem_cons]
  constructor
  · intro h
    refine ⟨.inr h, ?_⟩
    rintro rfl
    exact absurd h (by decide)
  · rintro ⟨zero | h, other⟩
    · exact absurd zero other
    · exact h

theorem rmatch_whole : RegularExpression.rmatch
    (.char '0' + oneOf "123456789".toList * digitPattern.star) text = true ↔ Whole text := by
  rw [RegularExpression.add_rmatch_iff, RegularExpression.char_rmatch_iff,
    RegularExpression.mul_rmatch_iff]
  constructor
  · rintro (rfl | ⟨front, back, rfl, hfront, hback⟩)
    · exact ⟨by simp, by decide, fun _ => rfl⟩
    · obtain ⟨c, hc, rfl⟩ := rmatch_oneOf.mp hfront
      obtain ⟨digit, other⟩ := mem_digits_iff.mp hc
      refine ⟨by simp, ?_, fun zero => absurd (Option.some.inj zero) other⟩
      rintro d (_ | ⟨_, hd⟩)
      · exact digit
      · exact mem_digits.mp (rmatch_star.mp hback d hd)
  · rintro ⟨some, digits, zero⟩
    cases text with
    | nil => exact absurd rfl some
    | cons c text =>
      by_cases hc : c = '0'
      · subst hc
        exact .inl (zero rfl)
      · have first := mem_digits_iff.mpr ⟨digits c List.mem_cons_self, hc⟩
        exact .inr ⟨[c], text, rfl, rmatch_oneOf.mpr ⟨c, first, rfl⟩, rmatch_star.mpr fun d hd =>
          mem_digits.mpr (digits d (List.mem_cons_of_mem _ hd))⟩

theorem rmatch_places {d : ℕ} : (digitPattern * upTo digitPattern d).rmatch text = true ↔
    (text ≠ [] ∧ Digits text) ∧ text.length ≤ d + 1 := by
  rw [RegularExpression.mul_rmatch_iff]
  constructor
  · rintro ⟨front, back, rfl, hfront, hback⟩
    obtain ⟨c, hc, rfl⟩ := rmatch_oneOf.mp hfront
    obtain ⟨length, all⟩ := rmatch_upTo.mp hback
    refine ⟨⟨by simp, ?_⟩, Nat.succ_le_succ length⟩
    rintro d (_ | ⟨_, hd⟩)
    · exact mem_digits.mp hc
    · exact mem_digits.mp (all d hd)
  · rintro ⟨⟨some, digits⟩, length⟩
    cases text with
    | nil => exact absurd rfl some
    | cons c text =>
      have first := mem_digits.mpr (digits c List.mem_cons_self)
      exact ⟨[c], text, rfl, rmatch_oneOf.mpr ⟨c, first, rfl⟩, rmatch_upTo.mpr
        ⟨Nat.le_of_succ_le_succ length, fun d hd =>
          mem_digits.mpr (digits d (List.mem_cons_of_mem _ hd))⟩⟩

/-- The texts of the pattern are the numerals with few places. -/
theorem rmatch_numeralPattern {d : ℕ} : (numeralPattern d).rmatch text = true ↔
    ∃ n : Numeral, n.places.length ≤ d + 1 ∧ n.chars = text := by
  rw [numeralPattern, RegularExpression.mul_rmatch_iff]
  constructor
  · rintro ⟨whole, back, rfl, hwhole, hback⟩
    have isWhole := rmatch_whole.mp hwhole
    rw [RegularExpression.add_rmatch_iff, RegularExpression.one_rmatch_iff,
      RegularExpression.mul_rmatch_iff] at hback
    rcases hback with rfl | ⟨point, places, rfl, hpoint, hplaces⟩
    · exact ⟨⟨whole, [], isWhole, by decide⟩, Nat.zero_le _, rfl⟩
    · rw [RegularExpression.char_rmatch_iff] at hpoint
      obtain ⟨⟨some, areDigits⟩, length⟩ := rmatch_places.mp hplaces
      exact ⟨⟨whole, places, isWhole, areDigits⟩, length, by
        rw [Numeral.chars, if_neg some, hpoint, List.singleton_append]⟩
  · rintro ⟨⟨whole, places, isWhole, areDigits⟩, length, rfl⟩
    refine ⟨whole, _, rfl, rmatch_whole.mpr isWhole, ?_⟩
    rw [RegularExpression.add_rmatch_iff, RegularExpression.one_rmatch_iff,
      RegularExpression.mul_rmatch_iff]
    by_cases none : places = []
    · exact .inl (if_pos none)
    · refine .inr ⟨['.'], places, if_neg none, ?_, rmatch_places.mpr ⟨⟨none, areDigits⟩, length⟩⟩
      rw [RegularExpression.char_rmatch_iff]

end Pattern

/-! ### Multiples of a unit -/

/-- A number of units in decimals, `d` of them. -/
def ofUnits (d units : ℕ) : Numeral where
  whole := Nat.toDigits 10 (units / 10 ^ d)
  places :=
    let digits := Nat.toDigits 10 (units % 10 ^ d)
    List.replicate (d - digits.length) '0' ++ digits
  isWhole := whole_toDigits _
  areDigits := by
    intro c hc
    rcases List.mem_append.mp hc with hc | hc
    · rw [List.eq_of_mem_replicate hc]
      decide
    · exact digits_toDigits _ c hc

theorem value_ofUnits {d : ℕ} (positive : 0 < d) (units : ℕ) :
    (ofUnits d units).value = units / 10 ^ d := by
  have below : (Nat.toDigits 10 (units % 10 ^ d)).length ≤ d :=
    (Nat.length_toDigits_le_iff (by decide) positive).mpr (Nat.mod_lt _ (by positivity))
  have length : (ofUnits d units).places.length = d := by
    rw [ofUnits, List.length_append, List.length_replicate]
    omega
  have behind : digitsValue (ofUnits d units).places = units % 10 ^ d := by
    rw [ofUnits, zeros_digitsValue, digitsValue_toDigits]
  rw [Numeral.value, length, behind, ofUnits, digitsValue_toDigits]
  rw [eq_div_iff (by positivity), add_mul, div_mul_cancel₀ _ (by positivity)]
  exact_mod_cast Nat.div_add_mod' units (10 ^ d)

/-- A numeral with few places is a number of units. -/
theorem exists_units (n : Numeral) {d : ℕ} (h : n.places.length ≤ d) :
    ∃ units : ℕ, n.value = units / 10 ^ d := by
  refine ⟨digitsValue n.whole * 10 ^ d + digitsValue n.places * 10 ^ (d - n.places.length), ?_⟩
  have power : (10 : ℚ) ^ d = 10 ^ (d - n.places.length) * 10 ^ n.places.length := by
    rw [← pow_add, Nat.sub_add_cancel h]
  rw [Numeral.value, eq_div_iff (by positivity), add_mul, power]
  push_cast
  rw [power]
  field_simp

end EtherTrade.DecimalNumerals
