import EtherTrade.AmountValidation

/-!
# Amounts keep their value

Which texts `validateAmount` accepts, and what it makes of them: the same number in plain
notation, once and for all.
-/

namespace EtherTrade.AmountValidationLaws

open DecimalNumbers DecimalNumerals AmountValidation
open BalancesService (isWhiteSpace plainText trim trim_eq_self)

variable {library : BigNumberLibrary} {amount : String} {maxAmount : Option String}

/-! ### Texts -/

theorem rmatch_amountRegex {text : List Char} : amountRegex.rmatch text = true ↔
    ∃ n : Numeral, n.places.length ≤ decimalScale ∧ n.chars = text :=
  rmatch_numeralPattern

theorem not_whiteSpace_of_mem_chars {n : Numeral} {c : Char} (h : c ∈ n.chars) :
    isWhiteSpace c = false := by
  have digit {d : Char} (h : d.isDigit = true) : isWhiteSpace d = false := by
    obtain ⟨k, hk, rfl⟩ := digit_cases h
    interval_cases k <;> decide
  rw [Numeral.chars] at h
  rcases List.mem_append.mp h with whole | behind
  · exact digit (n.isWhole.2.1 c whole)
  · split_ifs at behind
    · cases behind
    · rcases List.mem_cons.mp behind with rfl | place
      · decide
      · exact digit (n.areDigits c place)

theorem trim_chars (n : Numeral) : trim (String.ofList n.chars) = String.ofList n.chars :=
  trim_eq_self fun _ hc => not_whiteSpace_of_mem_chars (by rwa [String.toList_ofList] at hc)

theorem chars_ne_empty (n : Numeral) : String.ofList n.chars ≠ "" := by
  intro empty
  have chars := congrArg String.toList empty
  rw [String.toList_ofList, Numeral.chars] at chars
  exact n.isWhole.1 (List.append_eq_nil_iff.mp chars).1

/-! ### One call -/

/-- A text that is no numeral with few places is refused. -/
theorem validateAmount_other (h : amountRegex.rmatch (trim amount).toList = false) :
    validateAmount library amount maxAmount = .error invalidAmount := by
  rw [validateAmount, h, if_pos (by simp)]

/-- What becomes of a numeral. -/
theorem validateAmount_numeral {n : Numeral} (length : n.places.length ≤ decimalScale)
    (h : trim amount = String.ofList n.chars) :
    validateAmount library amount maxAmount =
      if 0 < n.value ∧ n.value < 10 ^ (library.maxExponent + 1) then
        if exceeds library (.finite n.value) maxAmount then
          .error (depositLimitExceeded (maxAmount.getD ""))
        else .ok (String.ofList n.shortest.chars)
      else .error invalidAmount := by
  have some : amount ≠ "" := by
    rintro rfl
    exact chars_ne_empty n h.symm
  have accepted : amountRegex.rmatch (trim amount).toList = true := by
    rw [h, String.toList_ofList]
    exact rmatch_amountRegex.mpr ⟨n, length, rfl⟩
  rw [validateAmount, accepted, if_neg (by simp [some]), h]
  dsimp only
  rcases lt_or_ge n.value (10 ^ (library.maxExponent + 1)) with within | beyond
  · rw [library.read_numeral n length within, library.toFixed_finite n length within]
    by_cases positive : 0 < n.value
    · have both : 0 < n.value ∧ n.value < 10 ^ (library.maxExponent + 1) := ⟨positive, within⟩
      rw [if_neg (by simp [isFinite, isAtMostZero, positive]), if_pos both]
    · rw [if_pos (by simpa [isFinite, isAtMostZero] using positive),
        if_neg fun both => positive both.1]
  · rw [library.read_beyond n length beyond, if_pos (by simp [isFinite]),
      if_neg fun both => absurd both.2 (not_lt.mpr beyond)]

/-- What is accepted is a numeral in range that no maximum forbids, and its shortest form is
returned. -/
theorem validateAmount_ok {result : String}
    (h : validateAmount library amount maxAmount = .ok result) :
    ∃ n : Numeral, n.places.length ≤ decimalScale ∧ trim amount = String.ofList n.chars ∧
      (0 < n.value ∧ n.value < 10 ^ (library.maxExponent + 1)) ∧
        exceeds library (.finite n.value) maxAmount = false ∧
          result = String.ofList n.shortest.chars := by
  cases matched : amountRegex.rmatch (trim amount).toList with
  | false =>
    rw [validateAmount_other matched] at h
    cases h
  | true =>
    obtain ⟨n, length, chars⟩ := rmatch_amountRegex.mp matched
    have text : trim amount = String.ofList n.chars := by rw [chars, String.ofList_toList]
    rw [validateAmount_numeral length text] at h
    split_ifs at h with within above
    exact ⟨n, length, text, within, Bool.eq_false_iff.mpr above, (Except.ok.inj h).symm⟩

/-- The text that is returned is accepted, as it is. -/
theorem validateAmount_again {n : Numeral} (length : n.places.length ≤ decimalScale)
    (within : 0 < n.value ∧ n.value < 10 ^ (library.maxExponent + 1))
    (below : exceeds library (.finite n.value) maxAmount = false) :
    validateAmount library (String.ofList n.shortest.chars) maxAmount =
      .ok (String.ofList n.shortest.chars) := by
  rw [validateAmount_numeral (n.shortest_length_le.trans length) (trim_chars n.shortest),
    n.value_shortest, if_pos within, below, n.shortest_shortest]
  rfl

/-- A column takes every unit, where the digits before the point fit. -/
theorem toColumn_numeral {n : Numeral} (length : n.places.length ≤ decimalScale)
    (fits : n.value < 10 ^ 20) :
    ∃ units : ℤ, (BigNumber.finite n.value).toColumn = some units ∧ units / scale = n.value := by
  obtain ⟨units, value⟩ := exists_units n length
  have written : n.value = ((units : ℤ) : ℚ) / scale := by
    rw [value, scale, decimalScale, Int.cast_natCast]
  refine ⟨units, ?_, written.symm⟩
  have nonneg := n.value_nonneg
  have bound : (units : ℤ) < 10 ^ 28 := by
    rw [written, div_lt_iff₀ scale_pos, scale] at fits
    have := fits.trans_eq (show (10 : ℚ) ^ 20 * 10 ^ 8 = ((10 ^ 28 : ℤ) : ℚ) by norm_num)
    exact_mod_cast this
  rw [BigNumber.toColumn, abs_of_nonneg nonneg, if_neg (not_lt.mpr nonneg), written,
    roundHalfUp_units, if_pos bound]

/-! ### Every text -/

/-- The text matches the pattern, and the number that it denotes is positive, in the library's
range and not above the maximum. -/
def Acceptable (library : BigNumberLibrary) (amount : String) (maxAmount : Option String) : Prop :=
  amountRegex.rmatch (trim amount).toList = true ∧ ∃ q, denotes (trim amount) = some q ∧
    0 < q ∧ q < 10 ^ (library.maxExponent + 1) ∧ exceeds library (.finite q) maxAmount = false

theorem acceptable_iff : (∃ result, validateAmount library amount maxAmount = .ok result) ↔
    Acceptable library amount maxAmount := by
  constructor
  · rintro ⟨result, h⟩
    obtain ⟨n, length, text, within, below, -⟩ := validateAmount_ok h
    refine ⟨?_, n.value, ?_, within.1, within.2, below⟩
    · rw [text, String.toList_ofList]
      exact rmatch_amountRegex.mpr ⟨n, length, rfl⟩
    · rw [text, denotes_chars]
  · rintro ⟨matched, q, denoted, positive, within, below⟩
    obtain ⟨n, length, chars⟩ := rmatch_amountRegex.mp matched
    have text : trim amount = String.ofList n.chars := by rw [chars, String.ofList_toList]
    rw [text, denotes_chars] at denoted
    obtain rfl := Option.some.inj denoted
    exact ⟨_, by rw [validateAmount_numeral length text, if_pos ⟨positive, within⟩, below]; rfl⟩

/-- A text that is accepted keeps its value: what is returned denotes the same number, is accepted
as it is, and loses nothing in a column that it fits. -/
structure Kept (library : BigNumberLibrary) (amount result : String) (maxAmount : Option String) :
    Prop where
  value : ∃ q, denotes (trim amount) = some q ∧ denotes result = some q
  again : validateAmount library result maxAmount = .ok result
  column : ∀ q, denotes result = some q → q < 10 ^ 20 →
    ∃ units : ℤ, stored result = some units ∧ units / scale = q

theorem kept_of_ok {result : String} (h : validateAmount library amount maxAmount = .ok result) :
    Kept library amount result maxAmount := by
  obtain ⟨n, length, text, within, below, rfl⟩ := validateAmount_ok h
  constructor
  case value =>
    exact ⟨n.value, by rw [text, denotes_chars], by rw [denotes_chars, n.value_shortest]⟩
  case again => exact validateAmount_again length within below
  case column =>
    intro q denoted fits
    rw [stored, denoted]
    rw [denotes_chars] at denoted
    obtain rfl := Option.some.inj denoted
    exact toColumn_numeral (n.shortest_length_le.trans length) fits

/-- A maximum in plain notation is a bound on the number. -/
theorem exceeds_numeral {m : Numeral} (length : m.places.length ≤ decimalScale)
    (within : m.value < 10 ^ (library.maxExponent + 1)) (q : ℚ) :
    exceeds library (.finite q) (some (String.ofList m.chars)) = decide (m.value < q) := by
  rw [exceeds, library.read_numeral m length within, BigNumber.isGreaterThan]
  simp [chars_ne_empty m]

/-! ### Units -/

theorem shortest_ofUnits {n : Numeral} {units : ℕ} (value : n.value = units / 10 ^ decimalScale) :
    (ofUnits decimalScale units).shortest = n.shortest :=
  Numeral.shortest_eq_of_value _ n ((value_ofUnits (by decide) units).trans value.symm)

theorem plainText_eq (a : AccountsSchema.Amount) :
    plainText a = String.ofList (ofUnits decimalScale a.units.toNat).shortest.chars := by
  have places : (ofUnits decimalScale a.units.toNat).shortest.places =
      (List.replicate (8 - (Nat.toDigits 10 (a.units.toNat % 10 ^ 8)).length) '0' ++
        Nat.toDigits 10 (a.units.toNat % 10 ^ 8)).rdropWhile (· = '0') := rfl
  unfold plainText
  dsimp only
  rw [← String.toList_inj, String.toList_ofList, ← String.length_toList, Nat.toString_eq_repr,
    Nat.toString_eq_repr, Nat.toList_repr, Numeral.chars, places]
  split_ifs with none
  · rw [Nat.toList_repr, List.append_nil]
    rfl
  · simp only [String.toList_append, Nat.toList_repr, String.toList_ofList, List.append_assoc]
    rfl

/-- What is returned for a text is the text of the amount that it denotes, in units. -/
theorem validateAmount_units {result : String}
    (h : validateAmount library amount maxAmount = .ok result) :
    ∃ (units : ℕ) (a : AccountsSchema.Amount), denotes (trim amount) = some (units / scale) ∧
      BalancesService.validateAmount (.digits 0 units) = .ok a ∧ plainText a = result := by
  obtain ⟨n, length, text, within, -, rfl⟩ := validateAmount_ok h
  obtain ⟨units, value⟩ := exists_units n length
  have positive : 0 < units := by
    rcases Nat.eq_zero_or_pos units with rfl | positive
    · rw [value] at within
      simp at within
    · exact positive
  obtain ⟨k, rfl⟩ := Nat.exists_eq_add_one_of_ne_zero positive.ne'
  refine ⟨k + 1, ⟨(k + 1 : ℕ), Int.natCast_succ_pos k⟩, ?_, rfl, ?_⟩
  · rw [text, denotes_chars, value]
    rfl
  · rw [plainText_eq, Int.toNat_natCast, shortest_ofUnits value]

/-! ### A library -/

/-- The library on numerals, with a largest exponent. -/
def plainLibrary (maxExponent : ℕ) : BigNumberLibrary where
  maxExponent := maxExponent
  read text :=
    match DecimalNumerals.read text.toList with
    | some n => if n.value < 10 ^ (maxExponent + 1) then .finite n.value else .infinite false
    | none => .nan
  toFixed
    | .finite q => String.ofList (ofUnits decimalScale ⌊q * scale⌋.toNat).shortest.chars
    | _ => "NaN"
  read_numeral n _ within := by
    rw [String.toList_ofList, read_chars]
    exact if_pos within
  read_beyond n _ beyond := by
    rw [String.toList_ofList, read_chars]
    exact if_neg (not_lt.mpr beyond)
  toFixed_finite n length _ := by
    obtain ⟨units, value⟩ := exists_units n length
    have written : n.value = ((units : ℤ) : ℚ) / scale := by
      rw [value, scale, decimalScale, Int.cast_natCast]
    dsimp only
    rw [written, div_mul_cancel₀ _ scale_pos.ne', Int.floor_intCast, Int.toNat_natCast]
    rw [shortest_ofUnits value]

theorem whole_powerOfTen (exponent : ℕ) : Whole ('1' :: List.replicate exponent '0') := by
  refine ⟨List.cons_ne_nil _ _, ?_, fun zero => absurd (Option.some.inj zero) (by decide)⟩
  rintro c (_ | ⟨_, hc⟩)
  · decide
  · rw [List.eq_of_mem_replicate hc]
    decide

/-- A one with zeros behind it. -/
def powerOfTen (exponent : ℕ) : Numeral :=
  ⟨'1' :: List.replicate exponent '0', [], whole_powerOfTen exponent, List.forall_mem_nil _⟩

theorem value_powerOfTen (exponent : ℕ) : (powerOfTen exponent).value = 10 ^ exponent := by
  have whole : digitsValue (powerOfTen exponent).whole = 10 ^ exponent := by
    have := digitsValue_zeros ['1'] exponent
    rw [show digitsValue ['1'] = 1 from rfl, Nat.one_mul] at this
    exact this
  rw [Numeral.value, whole, powerOfTen]
  simp [digitsValue]

/-- The first power of ten beyond the range is refused. -/
theorem validateAmount_powerOfTen (library : BigNumberLibrary) :
    validateAmount library (String.ofList (powerOfTen (library.maxExponent + 1)).chars) none =
      .error invalidAmount := by
  rw [validateAmount_numeral (Nat.zero_le _) (trim_chars _), value_powerOfTen,
    if_neg fun both => absurd both.2 (lt_irrefl _)]

/-- A numeral with more digits than the range of the library is positive, and refused. -/
theorem numeral_refused (library : BigNumberLibrary) : ∃ amount,
    (amountRegex.rmatch (trim amount).toList = true ∧
      ∃ q, denotes (trim amount) = some q ∧ 0 < q) ∧
    ∀ result, validateAmount library amount none ≠ .ok result := by
  refine ⟨String.ofList (powerOfTen (library.maxExponent + 1)).chars,
    ⟨?_, 10 ^ (library.maxExponent + 1), ?_, ?_⟩, ?_⟩
  · rw [trim_chars, String.toList_ofList]
    exact rmatch_amountRegex.mpr ⟨_, Nat.zero_le _, rfl⟩
  · rw [trim_chars, denotes_chars, value_powerOfTen]
  · positivity
  · intro result ok
    rw [validateAmount_powerOfTen] at ok
    cases ok

/-- One and a half, with a zero at its end. -/
def oneAndAHalf : Numeral := ⟨['1'], ['5', '0'], by decide, by decide⟩

theorem value_oneAndAHalf : oneAndAHalf.value = 3 / 2 := by
  have whole : digitsValue oneAndAHalf.whole = 1 := rfl
  have places : digitsValue oneAndAHalf.places = 50 := rfl
  rw [Numeral.value, whole, places]
  norm_num [oneAndAHalf]

/-- Below a maximum, a padded text is accepted. -/
theorem validateAmount_padded (h : 6 ≤ library.maxExponent) :
    validateAmount library " 1.50 " (some "1000000") = .ok "1.5" := by
  have range (k : ℕ) (hk : k < library.maxExponent + 1) :
      (10 : ℚ) ^ k < 10 ^ (library.maxExponent + 1) := pow_lt_pow_right₀ (by norm_num) hk
  have within : 0 < oneAndAHalf.value ∧ oneAndAHalf.value < 10 ^ (library.maxExponent + 1) := by
    rw [value_oneAndAHalf]
    exact ⟨by norm_num, lt_trans (by norm_num) (range 1 (by omega))⟩
  have large : (powerOfTen 6).value < 10 ^ (library.maxExponent + 1) := by
    rw [value_powerOfTen]
    exact range 6 (by omega)
  have max : "1000000" = String.ofList (powerOfTen 6).chars := rfl
  have below := exceeds_numeral (Nat.zero_le _) large oneAndAHalf.value
  rw [← max] at below
  rw [validateAmount_numeral (n := oneAndAHalf) (by decide) (by decide)]
  rw [if_pos within, below, value_powerOfTen, value_oneAndAHalf, if_neg (by norm_num)]
  rfl

/-! ### Amounts are exact -/

/-- A text is accepted exactly when it is acceptable, and whatever is returned has kept its
value. A maximum in plain notation allows the numbers up to its own. -/
theorem validateAmount_exact (library : BigNumberLibrary) (amount : String)
    (maxAmount : Option String) :
    ((∃ result, validateAmount library amount maxAmount = .ok result) ↔
      Acceptable library amount maxAmount) ∧
    (∀ result, validateAmount library amount maxAmount = .ok result →
      Kept library amount result maxAmount) ∧
    ∀ m : Numeral, m.places.length ≤ decimalScale → m.value < 10 ^ (library.maxExponent + 1) →
      ∀ q, exceeds library (.finite q) (some (String.ofList m.chars)) = false ↔ q ≤ m.value :=
  ⟨acceptable_iff, fun _ => kept_of_ok, fun m length within q => by
    rw [exceeds_numeral length within, decide_eq_false_iff_not, not_lt]⟩

theorem validateAmount_exact_padded :
    Kept (plainLibrary (10 ^ 7)) " 1.50 " "1.5" (some "1000000") :=
  (validateAmount_exact _ _ _).2.1 _ (validateAmount_padded (show 6 ≤ 10 ^ 7 by norm_num))

theorem not_every_numeral_accepted : ¬ ∀ amount,
    (∃ result, validateAmount (plainLibrary (10 ^ 7)) amount none = .ok result) ↔
      amountRegex.rmatch (trim amount).toList = true ∧
        ∃ q, denotes (trim amount) = some q ∧ 0 < q := by
  intro accepted
  obtain ⟨amount, denotes, refused⟩ := numeral_refused (plainLibrary (10 ^ 7))
  obtain ⟨result, ok⟩ := (accepted amount).mpr denotes
  exact refused result ok

end EtherTrade.AmountValidationLaws
