import EtherTrade.DepositsSchema
import Mathlib.Data.List.SplitLengths

/-!
# User ids on the chain

A user's id is a UUID on the platform and sixteen bytes in the deposit events of the vault.
The texts are compared up to the case of their letters.
-/

namespace EtherTrade.UserIdEncoding

open AccountsSchema DepositsSchema

variable {isDigit : Char → Bool} {digits : List Char} {groups : List (List Char)}
  {uuid other bytes16 : String} {c : Char}

/-! ### Texts -/

def isLowerHexDigit (c : Char) : Bool := c.isDigit || ('a' ≤ c && c ≤ 'f')

/-- The lengths of the groups of digits in a UUID. -/
def uuidGroups : List ℕ := [8, 4, 4, 4, 12]

/-- Groups of digits with hyphens between them. -/
def IsUuid (isDigit : Char → Bool) (uuid : String) : Prop :=
  ∃ groups : List (List Char), groups.map List.length = uuidGroups ∧
    groups.flatten.all isDigit = true ∧ uuid.toList = ['-'].intercalate groups

/-- Two digits for each byte, behind `0x`. -/
def IsBytes16 (isDigit : Char → Bool) (bytes16 : String) : Prop :=
  ∃ digits : List Char, bytes16.toList = '0' :: 'x' :: digits ∧ digits.length = 32 ∧
    digits.all isDigit = true

def lowerCase (text : String) : List Char := text.toList.map Char.toLower

/-! ### The encoder -/

def invalidUuid (uuid : Uuid) : String := "Invalid UUID length for bytes16 conversion: " ++ uuid

def uuidToBytes16 (uuid : Uuid) : Except String String :=
  let hex := (uuid.toList.filter (· ≠ '-')).map Char.toLower
  if hex.length = 32 then .ok ("0x" ++ String.ofList hex) else .error (invalidUuid uuid)

/-! ### Digits -/

theorem toNat_of_isHexDigit (h : isHexDigit c = true) :
    48 ≤ c.toNat ∧ c.toNat ≤ 57 ∨ 65 ≤ c.toNat ∧ c.toNat ≤ 70 ∨ 97 ≤ c.toNat ∧ c.toNat ≤ 102 := by
  have hval : c.val.toNat = c.toNat := rfl
  simp only [isHexDigit, Char.isDigit, Bool.or_eq_true, Bool.and_eq_true, decide_eq_true_eq,
    Char.le_def, UInt32.le_iff_toNat_le, ge_iff_le] at h
  simp at h
  omega

theorem isHexDigit_of_isLowerHexDigit (h : isLowerHexDigit c = true) : isHexDigit c = true := by
  rw [isHexDigit, Bool.or_eq_true]
  exact Or.inl h

theorem ne_hyphen_of_isHexDigit (h : isHexDigit c = true) : c ≠ '-' := by
  rintro rfl
  revert h
  decide

theorem toLower_of_isLowerHexDigit (h : isLowerHexDigit c = true) : c.toLower = c := by
  have hval : c.val.toNat = c.toNat := rfl
  have hnot : ¬(65 ≤ c.toNat ∧ c.toNat ≤ 90) := by
    simp only [isLowerHexDigit, Char.isDigit, Bool.or_eq_true, Bool.and_eq_true,
      decide_eq_true_eq, Char.le_def, UInt32.le_iff_toNat_le, ge_iff_le] at h
    simp at h
    omega
  refine dif_neg fun hupper => ?_
  simp only [UInt32.le_iff_toNat_le, ge_iff_le] at hupper
  simp at hupper
  omega

theorem isLowerHexDigit_toLower (h : isHexDigit c = true) : isLowerHexDigit c.toLower = true := by
  by_cases hlower : isLowerHexDigit c = true
  · rwa [toLower_of_isLowerHexDigit hlower]
  · have hupper : c ∈ ['A', 'B', 'C', 'D', 'E', 'F'] := by
      have hval : c.val.toNat = c.toNat := rfl
      have hrange := toNat_of_isHexDigit h
      simp only [isLowerHexDigit, Char.isDigit, Bool.or_eq_true, Bool.and_eq_true,
        decide_eq_true_eq, Char.le_def, UInt32.le_iff_toNat_le, ge_iff_le] at hlower
      simp at hlower
      simp only [List.mem_cons, List.not_mem_nil, or_false, ← Char.toNat_inj]
      simp
      omega
    simp only [List.mem_cons, List.not_mem_nil, or_false] at hupper
    rcases hupper with rfl | rfl | rfl | rfl | rfl | rfl <;> rfl

theorem map_toLower (h : digits.all isLowerHexDigit = true) : digits.map Char.toLower = digits :=
  (List.map_congr_left fun _ hc => toLower_of_isLowerHexDigit (List.all_eq_true.mp h _ hc)).trans
    (List.map_id _)

theorem all_isHexDigit (h : digits.all isLowerHexDigit = true) : digits.all isHexDigit = true :=
  List.all_eq_true.mpr fun _ hc => isHexDigit_of_isLowerHexDigit (List.all_eq_true.mp h _ hc)

/-! ### Groups -/

theorem splitLengths_flatten (groups : List (List Char)) :
    (groups.map List.length).splitLengths groups.flatten = groups := by
  induction groups with
  | nil => rfl
  | cons group groups ih => simp [ih]

/-- Removal of the hyphens joins the groups. -/
theorem filter_intercalate (h : groups.flatten.all isHexDigit = true) :
    (['-'].intercalate groups).filter (· ≠ '-') = groups.flatten := by
  have hgroup {group : List Char} (hall : group.all isHexDigit = true) :
      group.filter (· ≠ '-') = group :=
    List.filter_eq_self.mpr fun c hc =>
      decide_eq_true (ne_hyphen_of_isHexDigit (List.all_eq_true.mp hall c hc))
  induction groups with
  | nil => rfl
  | cons group groups ih =>
    rw [List.flatten_cons, List.all_append, Bool.and_eq_true] at h
    cases groups with
    | nil => simpa using hgroup h.1
    | cons next groups =>
      rw [List.intercalate_cons_cons, List.filter_append, List.filter_append, hgroup h.1, ih h.2]
      simp

theorem length_flatten (h : groups.map List.length = uuidGroups) : groups.flatten.length = 32 := by
  rw [List.length_flatten, h]
  rfl

/-! ### Both directions -/

theorem uuidToBytes16_eq (hlengths : groups.map List.length = uuidGroups)
    (hdigits : groups.flatten.all isHexDigit = true)
    (htext : uuid.toList = ['-'].intercalate groups) :
    uuidToBytes16 uuid = .ok ("0x" ++ String.ofList (groups.flatten.map Char.toLower)) := by
  have hlength : (groups.flatten.map Char.toLower).length = 32 := by
    rw [List.length_map, length_flatten hlengths]
  rw [uuidToBytes16, htext, filter_intercalate hdigits]
  exact if_pos hlength

theorem bytes16ToUuid_eq (htext : bytes16.toList = '0' :: 'x' :: digits)
    (hlength : digits.length = 32) :
    bytes16ToUuid bytes16 = .ok (String.ofList
      (['-'].intercalate (uuidGroups.splitLengths (digits.map Char.toLower)))) := by
  have hrest : ((digits.map Char.toLower).drop 20).take 12 = (digits.map Char.toLower).drop 20 := by
    apply List.take_of_length_le
    rw [List.length_drop, List.length_map]
    omega
  simp only [bytes16ToUuid, htext, List.length_map, hlength, if_true, uuidGroups,
    List.splitLengths_cons, List.splitLengths_nil, List.drop_drop, List.intercalate_cons_cons,
    List.intercalate_singleton]
  simp [hrest]

theorem lowerCase_uuid (hlengths : groups.map List.length = uuidGroups)
    (htext : uuid.toList = ['-'].intercalate groups) :
    lowerCase uuid =
      ['-'].intercalate (uuidGroups.splitLengths (groups.flatten.map Char.toLower)) := by
  have hgroups : (groups.map (List.map Char.toLower)).map List.length = uuidGroups := by
    simpa [List.map_map, Function.comp_def] using hlengths
  rw [lowerCase, htext, List.map_flatten, ← hgroups, splitLengths_flatten]
  clear htext hgroups hlengths
  induction groups with
  | nil => rfl
  | cons group groups ih =>
    cases groups with
    | nil => simp
    | cons next groups =>
      have hhyphen : ['-'].map Char.toLower = ['-'] := rfl
      simp only [List.map_cons, List.intercalate_cons_cons, List.map_append, hhyphen] at ih ⊢
      rw [ih]

theorem map_toLower_toLower (h : digits.all isHexDigit = true) :
    (digits.map Char.toLower).map Char.toLower = digits.map Char.toLower := by
  apply map_toLower
  rw [List.all_map, List.all_eq_true]
  exact fun c hc => isLowerHexDigit_toLower (List.all_eq_true.mp h c hc)

/-- The platform finds the UUID in lower case. -/
theorem decode_encode (h : IsUuid isHexDigit uuid) :
    (uuidToBytes16 uuid).bind bytes16ToUuid = .ok (String.ofList (lowerCase uuid)) := by
  obtain ⟨groups, hlengths, hdigits, htext⟩ := h
  have hhex : ("0x" ++ String.ofList (groups.flatten.map Char.toLower)).toList =
      '0' :: 'x' :: groups.flatten.map Char.toLower := by simp
  have hlength : (groups.flatten.map Char.toLower).length = 32 := by
    rw [List.length_map, length_flatten hlengths]
  rw [uuidToBytes16_eq hlengths hdigits htext, lowerCase_uuid hlengths htext]
  simp only [Except.bind]
  rw [bytes16ToUuid_eq hhex hlength, map_toLower_toLower hdigits]

/-- The chain gets the bytes in lower case. -/
theorem encode_decode (h : IsBytes16 isHexDigit bytes16) :
    (bytes16ToUuid bytes16).bind uuidToBytes16 = .ok (String.ofList (lowerCase bytes16)) := by
  obtain ⟨digits, htext, hlength, hdigits⟩ := h
  have hlower : (digits.map Char.toLower).all isLowerHexDigit = true := by
    rw [List.all_map, List.all_eq_true]
    exact fun c hc => isLowerHexDigit_toLower (List.all_eq_true.mp hdigits c hc)
  have hsum : (digits.map Char.toLower).length = uuidGroups.sum := by
    rw [List.length_map, hlength]
    rfl
  have hflatten := List.flatten_splitLengths (digits.map Char.toLower) uuidGroups hsum.le
  rw [bytes16ToUuid_eq htext hlength]
  simp only [Except.bind]
  rw [uuidToBytes16_eq (List.map_splitLengths_length _ _ hsum.ge)
    (by rw [hflatten]; exact all_isHexDigit hlower) (String.toList_ofList), hflatten,
    map_toLower hlower, lowerCase, htext]
  refine congrArg Except.ok (String.toList_injective ?_)
  simp only [String.toList_append, String.toList_ofList]
  rfl

/-! ### The encoding -/

theorem IsUuid.mono {isDigit' : Char → Bool} (h : IsUuid isDigit uuid)
    (hall : ∀ c, isDigit c = true → isDigit' c = true) : IsUuid isDigit' uuid := by
  obtain ⟨groups, hlengths, hdigits, htext⟩ := h
  refine ⟨groups, hlengths, List.all_eq_true.mpr fun c hc => ?_, htext⟩
  exact hall c (List.all_eq_true.mp hdigits c hc)

theorem IsBytes16.mono {isDigit' : Char → Bool} (h : IsBytes16 isDigit bytes16)
    (hall : ∀ c, isDigit c = true → isDigit' c = true) : IsBytes16 isDigit' bytes16 := by
  obtain ⟨digits, htext, hlength, hdigits⟩ := h
  refine ⟨digits, htext, hlength, List.all_eq_true.mpr fun c hc => ?_⟩
  exact hall c (List.all_eq_true.mp hdigits c hc)

/-- A UUID without letters in upper case is its own lower case. -/
theorem ofList_lowerCase_uuid (h : IsUuid isLowerHexDigit uuid) :
    String.ofList (lowerCase uuid) = uuid := by
  obtain ⟨groups, hlengths, hdigits, htext⟩ := h
  rw [lowerCase_uuid hlengths htext, map_toLower hdigits, ← hlengths, splitLengths_flatten,
    ← htext, String.ofList_toList]

theorem ofList_lowerCase_bytes16 (h : IsBytes16 isLowerHexDigit bytes16) :
    String.ofList (lowerCase bytes16) = bytes16 := by
  obtain ⟨digits, htext, -, hdigits⟩ := h
  have hlower : lowerCase bytes16 = bytes16.toList := by
    rw [lowerCase, htext, List.map_cons, List.map_cons, map_toLower hdigits]
    rfl
  rw [hlower, String.ofList_toList]

/-- Both conversions undo each other on texts in lower case, and texts of any case with the
same image differ at most in the case of their letters. -/
theorem userIds_roundTrip :
    (∀ uuid, IsUuid isLowerHexDigit uuid → (uuidToBytes16 uuid).bind bytes16ToUuid = .ok uuid) ∧
    (∀ bytes16, IsBytes16 isLowerHexDigit bytes16 →
      (bytes16ToUuid bytes16).bind uuidToBytes16 = .ok bytes16) ∧
    (∀ uuid other, IsUuid isHexDigit uuid → IsUuid isHexDigit other →
      uuidToBytes16 uuid = uuidToBytes16 other → lowerCase uuid = lowerCase other) ∧
    ∀ bytes16 other, IsBytes16 isHexDigit bytes16 → IsBytes16 isHexDigit other →
      bytes16ToUuid bytes16 = bytes16ToUuid other → lowerCase bytes16 = lowerCase other := by
  refine ⟨fun uuid h => ?_, fun bytes16 h => ?_, fun uuid other h hother heq => ?_,
    fun bytes16 other h hother heq => ?_⟩
  · rw [decode_encode (h.mono fun _ => isHexDigit_of_isLowerHexDigit), ofList_lowerCase_uuid h]
  · rw [encode_decode (h.mono fun _ => isHexDigit_of_isLowerHexDigit), ofList_lowerCase_bytes16 h]
  · have hback := decode_encode h
    rw [heq, decode_encode hother] at hback
    exact (String.ofList_injective (Except.ok.inj hback)).symm
  · have hback := encode_decode h
    rw [heq, encode_decode hother] at hback
    exact (String.ofList_injective (Except.ok.inj hback)).symm

theorem userIds_roundTrip_sample :
    (uuidToBytes16 "018f3a2b-4c5d-7e8f-9a0b-1c2d3e4f5a6b").bind bytes16ToUuid =
      .ok "018f3a2b-4c5d-7e8f-9a0b-1c2d3e4f5a6b" ∧
    (bytes16ToUuid "0x018f3a2b4c5d7e8f9a0b1c2d3e4f5a6b").bind uuidToBytes16 =
      .ok "0x018f3a2b4c5d7e8f9a0b1c2d3e4f5a6b" :=
  ⟨userIds_roundTrip.1 _ ⟨["018f3a2b".toList, "4c5d".toList, "7e8f".toList, "9a0b".toList,
      "1c2d3e4f5a6b".toList], by decide, by decide, by decide⟩,
    userIds_roundTrip.2.1 _ ⟨"018f3a2b4c5d7e8f9a0b1c2d3e4f5a6b".toList, by decide, by decide,
      by decide⟩⟩

end EtherTrade.UserIdEncoding
