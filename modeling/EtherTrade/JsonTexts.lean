import EtherTrade.JsonValues
import Mathlib.Tactic.IntervalCases

/-!
# Texts of JSON values

`JSON.stringify` without spaces and `JSON.parse`, on lists of characters. A number is written
and read by functions that are parameters. What `stringify` writes of a value without numbers,
`parse` reads back.
-/

namespace EtherTrade.JsonTexts

open JsonValues

/-! ### Writing -/

def hexDigit (n : ℕ) : Char := if n < 10 then Char.ofNat (48 + n) else Char.ofNat (87 + n)

/-- A character inside a text. -/
def escape (c : Char) : List Char :=
  if c = '"' then ['\\', '"']
  else if c = '\\' then ['\\', '\\']
  else if c.toNat = 8 then ['\\', 'b']
  else if c.toNat = 9 then ['\\', 't']
  else if c.toNat = 10 then ['\\', 'n']
  else if c.toNat = 12 then ['\\', 'f']
  else if c.toNat = 13 then ['\\', 'r']
  else if c.toNat < 32 then ['\\', 'u', '0', '0', hexDigit (c.toNat / 16), hexDigit (c.toNat % 16)]
  else [c]

def quote (text : String) : List Char := '"' :: (text.toList.flatMap escape ++ ['"'])

section Stringify

variable (numberText : JsonNumber → String)

mutual

def stringify : Json → List Char
  | .null => "null".toList
  | .bool value => (if value then "true" else "false").toList
  | .number value => (numberText value).toList
  | .string text => quote text
  | .array [] => ['[', ']']
  | .array (item :: items) => '[' :: (stringify item ++ stringifyItems items)
  | .object [] => ['{', '}']
  | .object ((name, value) :: fields) =>
    '{' :: (quote name ++ ':' :: (stringify value ++ stringifyFields fields))

/-- The items behind the first, up to the bracket. -/
def stringifyItems : List Json → List Char
  | [] => [']']
  | item :: items => ',' :: (stringify item ++ stringifyItems items)

/-- The fields behind the first, up to the brace. -/
def stringifyFields : List (String × Json) → List Char
  | [] => ['}']
  | (name, value) :: fields =>
    ',' :: (quote name ++ ':' :: (stringify value ++ stringifyFields fields))

end

end Stringify

/-! ### Reading texts -/

def isSpace (c : Char) : Bool := c = ' ' || c = '\t' || c = '\n' || c = '\r'

def skip (text : List Char) : List Char := text.dropWhile isSpace

def hexValue (c : Char) : Option ℕ :=
  if '0' ≤ c ∧ c ≤ '9' then some (c.toNat - 48)
  else if 'a' ≤ c ∧ c ≤ 'f' then some (c.toNat - 87)
  else if 'A' ≤ c ∧ c ≤ 'F' then some (c.toNat - 55)
  else none

/-- Four digits behind `\u`. -/
def codeUnit (a b c d : Char) : Option ℕ := do
  return (((← hexValue a) * 16 + (← hexValue b)) * 16 + (← hexValue c)) * 16 + (← hexValue d)

/-- The character of two code units, if they are a pair. -/
def surrogatePair (high low : ℕ) : Option Char :=
  if 0xD800 ≤ high ∧ high < 0xDC00 ∧ 0xDC00 ≤ low ∧ low < 0xE000 then
    some (Char.ofNat (0x10000 + (high - 0xD800) * 0x400 + (low - 0xDC00)))
  else none

/-- The character of a code unit alone. One half of a pair has none, and is replaced. -/
def unitChar (unit : ℕ) : Char :=
  if 0xD800 ≤ unit ∧ unit < 0xE000 then Char.ofNat 0xFFFD else Char.ofNat unit

/-- What stands behind a backslash for one character. -/
def unescape : Char → Option Char
  | '"' => some '"'
  | '\\' => some '\\'
  | '/' => some '/'
  | 'b' => some (Char.ofNat 8)
  | 'f' => some (Char.ofNat 12)
  | 'n' => some '\n'
  | 'r' => some '\r'
  | 't' => some '\t'
  | _ => none

/-- A character of a text as it stands there, or the code unit of an escape. -/
inductive Piece where
  | char (c : Char)
  | unit (n : ℕ)

/-- The pieces of a text behind its opening quote, and what follows its closing one. -/
def readPieces : List Char → Option (List Piece × List Char)
  | [] => none
  | '"' :: rest => some ([], rest)
  | '\\' :: 'u' :: a :: b :: c :: d :: rest =>
    match codeUnit a b c d with
    | none => none
    | some unit => (readPieces rest).map fun r => (.unit unit :: r.1, r.2)
  | '\\' :: c :: rest =>
    match unescape c with
    | none => none
    | some char => (readPieces rest).map fun r => (.char char :: r.1, r.2)
  | c :: rest =>
    if c = '\\' ∨ c.toNat < 32 then none
    else (readPieces rest).map fun r => (.char c :: r.1, r.2)

/-- The characters of the pieces. Two halves that stand together are one character. -/
def joinPieces : List Piece → List Char
  | [] => []
  | .char c :: rest => c :: joinPieces rest
  | .unit high :: .unit low :: rest =>
    match surrogatePair high low with
    | some c => c :: joinPieces rest
    | none => unitChar high :: joinPieces (.unit low :: rest)
  | .unit n :: rest => unitChar n :: joinPieces rest

/-- A text behind its opening quote, and what follows its closing one. -/
def readString (text : List Char) : Option (List Char × List Char) :=
  (readPieces text).map fun r => (joinPieces r.1, r.2)

/-! ### Texts are read back -/

theorem joinPieces_unit {n : ℕ} (h : n < 0xD800) (pieces : List Piece) :
    joinPieces (.unit n :: pieces) = Char.ofNat n :: joinPieces pieces := by
  have unit : unitChar n = Char.ofNat n := if_neg fun between => absurd between.1 (by omega)
  have alone (low : ℕ) : surrogatePair n low = none :=
    if_neg fun pair => absurd pair.1 (by omega)
  cases pieces with
  | nil => simp [joinPieces, unit]
  | cons piece pieces =>
    cases piece with
    | char c => simp [joinPieces, unit]
    | unit low => simp [joinPieces, alone, unit]

/-- A piece is read of a text, and stands for the character there. -/
def ReadsAs (text : List Char) (c : Char) : Prop :=
  ∃ piece : Piece,
    (∀ rest, readPieces (text ++ rest) = (readPieces rest).map fun r => (piece :: r.1, r.2)) ∧
      ∀ pieces, joinPieces (piece :: pieces) = c :: joinPieces pieces

theorem escape_control {n : ℕ} (h : n < 32) : ReadsAs (escape (Char.ofNat n)) (Char.ofNat n) := by
  interval_cases n
  case «8» | «9» | «10» | «12» | «13» => exact ⟨.char _, fun _ => rfl, fun _ => rfl⟩
  all_goals exact ⟨.unit _, fun _ => rfl, joinPieces_unit (by decide)⟩

theorem escape_plain {c : Char} (hq : c ≠ '"') (hb : c ≠ '\\') (h : 32 ≤ c.toNat) :
    escape c = [c] := by
  unfold escape
  rw [if_neg hq, if_neg hb, if_neg (by omega), if_neg (by omega), if_neg (by omega),
    if_neg (by omega), if_neg (by omega), if_neg (by omega)]

theorem flatMap_escape {text : List Char} (plain : ∀ c ∈ text, escape c = [c]) :
    text.flatMap escape = text := by
  induction text with
  | nil => rfl
  | cons c text ih =>
    rw [List.flatMap_cons, plain c List.mem_cons_self, List.singleton_append,
      ih fun x hx => plain x (List.mem_cons_of_mem c hx)]

theorem readsAs_escape (c : Char) : ReadsAs (escape c) c := by
  by_cases hq : c = '"'
  · subst hq
    exact ⟨.char _, fun _ => rfl, fun _ => rfl⟩
  by_cases hb : c = '\\'
  · subst hb
    exact ⟨.char _, fun _ => rfl, fun _ => rfl⟩
  rcases lt_or_ge c.toNat 32 with control | plain
  · rw [← Char.ofNat_toNat c]
    exact escape_control control
  · refine ⟨.char c, fun rest => ?_, fun _ => rfl⟩
    rw [escape_plain hq hb plain, List.singleton_append]
    simp [readPieces, hb, Nat.not_lt.mpr plain]

theorem readPieces_text (chars rest : List Char) :
    ∃ pieces, readPieces (chars.flatMap escape ++ '"' :: rest) = some (pieces, rest) ∧
      joinPieces pieces = chars := by
  induction chars with
  | nil => exact ⟨[], rfl, rfl⟩
  | cons c chars ih =>
    obtain ⟨pieces, read, joined⟩ := ih
    obtain ⟨piece, reads, joins⟩ := readsAs_escape c
    refine ⟨piece :: pieces, ?_, by rw [joins, joined]⟩
    rw [List.flatMap_cons, List.append_assoc, reads, read]
    rfl

theorem readString_text (text : String) (rest : List Char) :
    readString (text.toList.flatMap escape ++ '"' :: rest) = some (text.toList, rest) := by
  obtain ⟨pieces, read, joined⟩ := readPieces_text text.toList rest
  rw [readString, read, Option.map_some, joined]

/-! ### Reading values -/

/-- The digits at the beginning of a text. -/
def digits (text : List Char) : List Char × List Char := text.span Char.isDigit

/-- The fraction of a numeral, where there is one. -/
def readFraction : List Char → Option (List Char × List Char)
  | '.' :: rest =>
    let (places, rest) := digits rest
    if places = [] then none else some ('.' :: places, rest)
  | rest => some ([], rest)

/-- The exponent of a numeral, where there is one. -/
def readExponent : List Char → Option (List Char × List Char)
  | c :: rest =>
    if c = 'e' ∨ c = 'E' then
      let (sign, rest) := rest.span fun c => c = '+' ∨ c = '-'
      let (places, rest) := digits rest
      if 1 < sign.length ∨ places = [] then none else some (c :: (sign ++ places), rest)
    else some ([], c :: rest)
  | [] => some ([], [])

/-- A numeral without superfluous zeros in front. -/
def readNumeral (text : List Char) : Option (List Char × List Char) :=
  let (sign, rest) := if text.head? = some '-' then (['-'], text.tail) else ([], text)
  let (whole, rest) := digits rest
  if whole = [] ∨ 1 < whole.length ∧ whole.head? = some '0' then none
  else do
    let (fraction, rest) ← readFraction rest
    let (exponent, rest) ← readExponent rest
    return (sign ++ whole ++ fraction ++ exponent, rest)

section Parse

variable (numberOf : String → JsonNumber)

mutual

/-- A value with spaces before it, and what follows it. Each value and item takes at least one
character, and one unit of fuel. -/
def readValue : ℕ → List Char → Option (Json × List Char)
  | 0, _ => none
  | fuel + 1, text =>
    match skip text with
    | 'n' :: 'u' :: 'l' :: 'l' :: rest => some (.null, rest)
    | 't' :: 'r' :: 'u' :: 'e' :: rest => some (.bool true, rest)
    | 'f' :: 'a' :: 'l' :: 's' :: 'e' :: rest => some (.bool false, rest)
    | '"' :: rest => (readString rest).map fun r => (.string (String.ofList r.1), r.2)
    | '[' :: rest =>
      match skip rest with
      | ']' :: rest => some (.array [], rest)
      | rest => (readItems fuel rest).map fun r => (.array r.1, r.2)
    | '{' :: rest =>
      match skip rest with
      | '}' :: rest => some (.object [], rest)
      | rest => (readFields fuel rest).map fun r => (.object r.1, r.2)
    | rest => (readNumeral rest).map fun r => (.number (numberOf (String.ofList r.1)), r.2)

def readItems : ℕ → List Char → Option (List Json × List Char)
  | 0, _ => none
  | fuel + 1, text =>
    match readValue fuel text with
    | none => none
    | some (item, rest) =>
      match skip rest with
      | ',' :: rest => (readItems fuel rest).map fun r => (item :: r.1, r.2)
      | ']' :: rest => some ([item], rest)
      | _ => none

def readFields : ℕ → List Char → Option (List (String × Json) × List Char)
  | 0, _ => none
  | fuel + 1, text =>
    match skip text with
    | '"' :: rest =>
      match readString rest with
      | none => none
      | some (name, rest) =>
        match skip rest with
        | ':' :: rest =>
          match readValue fuel rest with
          | none => none
          | some (value, rest) =>
            match skip rest with
            | ',' :: rest =>
              (readFields fuel rest).map fun r => ((String.ofList name, value) :: r.1, r.2)
            | '}' :: rest => some ([(String.ofList name, value)], rest)
            | _ => none
        | _ => none
    | _ => none

end

def parse (text : List Char) : Option Json :=
  match readValue numberOf (2 * text.length + 2) text with
  | some (value, rest) => if skip rest = [] then some value else none
  | none => none

end Parse

/-! ### Values are read back -/

mutual

def numberFree : Json → Bool
  | .number _ => false
  | .array items => numberFreeItems items
  | .object fields => numberFreeFields fields
  | _ => true

def numberFreeItems : List Json → Bool
  | [] => true
  | item :: items => numberFree item && numberFreeItems items

def numberFreeFields : List (String × Json) → Bool
  | [] => true
  | (_, value) :: fields => numberFree value && numberFreeFields fields

end

section RoundTrip

variable (numberText : JsonNumber → String) {numberOf : String → JsonNumber}

theorem skip_of_not_space {c : Char} (h : isSpace c = false) (rest : List Char) :
    skip (c :: rest) = c :: rest := by
  simp [skip, h]

theorem stringify_head {value : Json} (free : numberFree value = true) :
    ∃ c text, stringify numberText value = c :: text ∧ isSpace c = false ∧ c ≠ ']' := by
  cases value with
  | null => exact ⟨'n', _, rfl, rfl, by decide⟩
  | bool value =>
    cases value with
    | true => exact ⟨'t', _, rfl, rfl, by decide⟩
    | false => exact ⟨'f', _, rfl, rfl, by decide⟩
  | number value => cases free
  | string text => exact ⟨'"', _, rfl, rfl, by decide⟩
  | array items =>
    cases items with
    | nil => exact ⟨'[', _, rfl, rfl, by decide⟩
    | cons item items => exact ⟨'[', _, rfl, rfl, by decide⟩
  | object fields =>
    cases fields with
    | nil => exact ⟨'\x7b', _, rfl, rfl, by decide⟩
    | cons field fields => exact ⟨'\x7b', _, rfl, rfl, by decide⟩

theorem quote_append (text : String) (rest : List Char) :
    quote text ++ rest = '"' :: (text.toList.flatMap escape ++ '"' :: rest) := by
  simp [quote]

theorem readValue_quote (fuel : ℕ) (text : String) (rest : List Char) :
    readValue numberOf (fuel + 1) (quote text ++ rest) = some (.string text, rest) := by
  have read : readValue numberOf (fuel + 1) ('"' :: (text.toList.flatMap escape ++ '"' :: rest)) =
      (readString (text.toList.flatMap escape ++ '"' :: rest)).map fun r =>
        (.string (String.ofList r.1), r.2) := rfl
  rw [quote_append, read, readString_text, Option.map_some, String.ofList_toList]

theorem readValue_items {c : Char} (notSpace : isSpace c = false) (notEnd : c ≠ ']') (fuel : ℕ)
    (text : List Char) :
    readValue numberOf (fuel + 1) ('[' :: c :: text) =
      (readItems numberOf fuel (c :: text)).map fun r => (.array r.1, r.2) := by
  rw [readValue, skip_of_not_space rfl]
  simp [skip_of_not_space notSpace, notEnd]

theorem readItems_last {fuel : ℕ} {text rest : List Char} {item : Json}
    (read : readValue numberOf fuel text = some (item, ']' :: rest)) :
    readItems numberOf (fuel + 1) text = some ([item], rest) := by
  rw [readItems, read]
  rfl

theorem readItems_next {fuel : ℕ} {text rest : List Char} {item : Json}
    (read : readValue numberOf fuel text = some (item, ',' :: rest)) :
    readItems numberOf (fuel + 1) text =
      (readItems numberOf fuel rest).map fun r => (item :: r.1, r.2) := by
  rw [readItems, read]
  rfl

theorem readFields_name (fuel : ℕ) (name : String) (text : List Char) :
    readFields numberOf (fuel + 1) (quote name ++ ':' :: text) =
      match readValue numberOf fuel text with
      | none => none
      | some (value, rest) =>
        match skip rest with
        | ',' :: rest => (readFields numberOf fuel rest).map fun r => ((name, value) :: r.1, r.2)
        | '}' :: rest => some ([(name, value)], rest)
        | _ => none := by
  rw [quote_append, readFields, skip_of_not_space rfl]
  simp only [readString_text, skip_of_not_space (c := ':') rfl, String.ofList_toList]

theorem readFields_last {fuel : ℕ} {text rest : List Char} {value : Json} (name : String)
    (read : readValue numberOf fuel text = some (value, '}' :: rest)) :
    readFields numberOf (fuel + 1) (quote name ++ ':' :: text) = some ([(name, value)], rest) := by
  rw [readFields_name, read]
  rfl

theorem readFields_next {fuel : ℕ} {text rest : List Char} {value : Json} (name : String)
    (read : readValue numberOf fuel text = some (value, ',' :: rest)) :
    readFields numberOf (fuel + 1) (quote name ++ ':' :: text) =
      (readFields numberOf fuel rest).map fun r => ((name, value) :: r.1, r.2) := by
  rw [readFields_name, read]
  rfl

theorem length_stringifyItems (items : List Json) :
    0 < (stringifyItems numberText items).length := by
  cases items <;> simp [stringifyItems]

mutual

/-- Fuel for every character of the text is enough. -/
theorem readValue_stringify : ∀ {value : Json}, numberFree value = true → ∀ fuel : ℕ,
    (stringify numberText value).length ≤ fuel → ∀ rest : List Char,
      readValue numberOf fuel (stringify numberText value ++ rest) = some (value, rest)
  | _, free, 0, enough, _ => by
    obtain ⟨c, text, head, -, -⟩ := stringify_head numberText free
    simp [head] at enough
  | .null, _, fuel + 1, _, rest => rfl
  | .bool true, _, fuel + 1, _, rest => rfl
  | .bool false, _, fuel + 1, _, rest => rfl
  | .string text, _, fuel + 1, _, rest => readValue_quote fuel text rest
  | .array [], _, fuel + 1, _, rest => rfl
  | .array (item :: items), free, fuel + 1, enough, rest => by
    rw [numberFree, numberFreeItems, Bool.and_eq_true] at free
    rw [stringify, List.length_cons] at enough
    have read := readItems_stringify free.1 free.2 fuel (Nat.le_of_succ_le_succ enough) rest
    obtain ⟨c, text, head, notSpace, notEnd⟩ :=
      stringify_head numberText free.1
    rw [stringify, List.cons_append]
    rw [head, List.cons_append, List.cons_append] at read ⊢
    rw [readValue_items notSpace notEnd, read, Option.map_some]
  | .object [], _, fuel + 1, _, rest => rfl
  | .object ((name, value) :: fields), free, fuel + 1, enough, rest => by
    rw [numberFree, numberFreeFields, Bool.and_eq_true] at free
    rw [stringify, List.length_cons] at enough
    have read := readFields_stringify name free.1 free.2 fuel (Nat.le_of_succ_le_succ enough) rest
    have opened (text : List Char) : readValue numberOf (fuel + 1) ('{' :: (quote name ++ text)) =
        (readFields numberOf fuel (quote name ++ text)).map fun r => (.object r.1, r.2) := rfl
    rw [stringify, List.cons_append, List.append_assoc, opened, ← List.append_assoc, read,
      Option.map_some]

theorem readItems_stringify : ∀ {item : Json} {items : List Json}, numberFree item = true →
    numberFreeItems items = true → ∀ fuel : ℕ,
      (stringify numberText item ++ stringifyItems numberText items).length ≤ fuel →
        ∀ rest : List Char,
          readItems numberOf fuel
            ((stringify numberText item ++ stringifyItems numberText items) ++ rest) =
              some (item :: items, rest)
  | _, items, _, _, 0, enough, _ => by
    have := length_stringifyItems numberText items
    rw [List.length_append] at enough
    omega
  | item, [], free, _, fuel + 1, enough, rest => by
    rw [List.length_append] at enough
    rw [List.append_assoc]
    have := length_stringifyItems numberText []
    exact readItems_last (readValue_stringify free fuel (by omega) _)
  | item, next :: items, free, frees, fuel + 1, enough, rest => by
    rw [numberFreeItems, Bool.and_eq_true] at frees
    rw [List.length_append, stringifyItems, List.length_cons] at enough
    have read := readValue_stringify free fuel (by omega)
      (',' :: ((stringify numberText next ++ stringifyItems numberText items) ++ rest))
    have reads := readItems_stringify frees.1 frees.2 fuel (by omega) rest
    rw [List.append_assoc, stringifyItems, List.cons_append, readItems_next read, reads,
      Option.map_some]

theorem readFields_stringify (name : String) : ∀ {value : Json} {fields : List (String × Json)},
    numberFree value = true → numberFreeFields fields = true → ∀ fuel : ℕ,
      (quote name ++
        ':' :: (stringify numberText value ++ stringifyFields numberText fields)).length ≤ fuel →
          ∀ rest : List Char,
          readFields numberOf fuel
            ((quote name ++
              ':' :: (stringify numberText value ++ stringifyFields numberText fields)) ++ rest) =
                some ((name, value) :: fields, rest)
  | _, _, _, _, 0, enough, _ => by
    simp [quote] at enough
  | value, [], free, _, fuel + 1, enough, rest => by
    simp only [List.length_append, List.length_cons] at enough
    have read := readValue_stringify free fuel (by omega) ('}' :: rest)
    rw [List.append_assoc, List.cons_append, List.append_assoc]
    exact readFields_last name read
  | value, (next, other) :: fields, free, frees, fuel + 1, enough, rest => by
    rw [numberFreeFields, Bool.and_eq_true] at frees
    simp only [stringifyFields, List.length_append, List.length_cons] at enough
    have read := readValue_stringify free fuel (by omega) (',' :: ((quote next ++
      ':' :: (stringify numberText other ++ stringifyFields numberText fields)) ++ rest))
    have reads := readFields_stringify next frees.1 frees.2 fuel (by
      simp only [List.length_append, List.length_cons]
      omega) rest
    rw [List.append_assoc, List.cons_append, List.append_assoc, stringifyFields, List.cons_append,
      readFields_next name read, reads, Option.map_some]

end

/-- A value without numbers is read back from its text. -/
theorem parse_stringify {value : Json} (free : numberFree value = true) :
    parse numberOf (stringify numberText value) = some value := by
  have read : readValue numberOf (2 * (stringify numberText value).length + 2)
      (stringify numberText value ++ []) = some (value, []) :=
    readValue_stringify numberText free _ (by omega) []
  rw [List.append_nil] at read
  rw [parse, read]
  rfl

end RoundTrip

/-! ### What is found in a text -/

/-- What can stand behind the backslash of an escape. -/
def escapeChars : List Char := "\"\\btnfru0123456789acde".toList

theorem escape_cases (c : Char) :
    escape c = [c] ∨ ∃ tail, escape c = '\\' :: tail ∧ tail ⊆ escapeChars := by
  fun_cases escape c with
  | case9 => exact .inl rfl
  | case8 =>
    refine .inr ⟨_, rfl, ?_⟩
    generalize c.toNat = n at *
    interval_cases n <;> decide
  | _ => exact .inr ⟨_, rfl, by decide⟩

/-- A part that does not begin in an escape, and whose characters are written as they are and
do not delimit a value. -/
structure Part (part : List Char) : Prop where
  nonempty : part ≠ []
  start : ∀ c ∈ part.head?, c ∉ escapeChars
  plain : ∀ c ∈ part, escape c = [c]
  delimits : ∀ c ∈ part, c ∉ ['[', ']', '{', '}', ',', ':']

theorem Part.of_all {head : Char} {tail : List Char} (start : head ∉ escapeChars)
    (all : (head :: tail).all (fun c =>
      escape c = [c] ∧ c ∉ ['[', ']', '{', '}', ',', ':']) = true) : Part (head :: tail) := by
  have each c (hc : c ∈ head :: tail) := of_decide_eq_true (List.all_eq_true.mp all c hc)
  constructor
  case nonempty => exact List.cons_ne_nil head tail
  case start =>
    rintro c ⟨⟩
    exact start
  case plain => exact fun c hc => (each c hc).1
  case delimits => exact fun c hc => (each c hc).2

theorem infix_separated {α : Type*} {part : List α} {x : α} (hx : x ∉ part) (hpart : part ≠ [])
    (a b : List α) : part <:+: a ++ x :: b ↔ part <:+: a ∨ part <:+: b := by
  have notPrefix {l : List α} (hl : l ≠ []) (hsub : l ⊆ part) : ¬ l <+: x :: b := by
    obtain ⟨head, tail, rfl⟩ := List.exists_cons_of_ne_nil hl
    intro before
    obtain ⟨rfl, -⟩ := List.cons_prefix_cons.mp before
    exact hx (hsub List.mem_cons_self)
  rw [List.infix_append_iff_ne_nil, List.infix_cons_iff]
  constructor
  · rintro (left | (across | right) | ⟨l, r, -, hr, rfl, -, across⟩)
    · exact .inl left
    · exact absurd across (notPrefix hpart (List.Subset.refl _))
    · exact .inr right
    · exact absurd across (notPrefix hr (List.subset_append_right l r))
  · rintro (left | right)
    · exact .inl left
    · exact .inr (.inl (.inr right))

theorem infix_behind {α : Type*} {head : α} {tail a : List α} (h : head ∉ a) (b : List α) :
    head :: tail <:+: a ++ b ↔ head :: tail <:+: b := by
  rw [List.infix_append_iff_ne_nil]
  constructor
  · rintro (left | right | ⟨l, r, hl, -, split, across, -⟩)
    · exact absurd (left.subset List.mem_cons_self) h
    · exact right
    · obtain ⟨first, l, rfl⟩ := List.exists_cons_of_ne_nil hl
      obtain ⟨rfl, -⟩ := List.cons.inj split
      exact absurd (across.subset List.mem_cons_self) h
  · exact fun right => .inr (.inl right)

theorem prefix_escape {part : List Char} (plain : ∀ c ∈ part, escape c = [c]) (text : List Char) :
    part <+: text.flatMap escape ↔ part <+: text := by
  induction text generalizing part with
  | nil => rfl
  | cons c text ih =>
    cases part with
    | nil => simp
    | cons head tail =>
      have hhead := plain head List.mem_cons_self
      rw [List.flatMap_cons, List.cons_prefix_cons]
      rcases escape_cases c with hc | ⟨rest, hc, -⟩
      · rw [hc, List.singleton_append, List.cons_prefix_cons,
          ih fun x hx => plain x (List.mem_cons_of_mem _ hx)]
      · rw [hc, List.cons_append, List.cons_prefix_cons]
        constructor
        · rintro ⟨rfl, -⟩
          exact absurd hhead (by decide)
        · rintro ⟨rfl, -⟩
          obtain ⟨rfl, -⟩ := List.cons.inj (hhead.symm.trans hc)
          exact absurd hhead (by decide)

namespace Part

variable {part : List Char} (hp : Part part)

include hp

theorem infix_escape (text : List Char) : part <:+: text.flatMap escape ↔ part <:+: text := by
  obtain ⟨head, tail, rfl⟩ := List.exists_cons_of_ne_nil hp.nonempty
  have hhead := hp.plain head List.mem_cons_self
  induction text with
  | nil => rfl
  | cons c text ih =>
    rcases escape_cases c with hc | ⟨rest, hc, hrest⟩
    · have first := prefix_escape hp.plain (c :: text)
      rw [List.flatMap_cons, hc, List.singleton_append] at first ⊢
      rw [List.infix_cons_iff, List.infix_cons_iff, first]
      exact or_congr_right ih
    · have skipped : head ∉ '\\' :: rest := by
        rintro (_ | ⟨_, hmem⟩)
        · exact absurd hhead (by decide)
        · exact hp.start head rfl (hrest hmem)
      have other : head ≠ c := by
        rintro rfl
        obtain ⟨rfl, -⟩ := List.cons.inj (hhead.symm.trans hc)
        exact absurd hhead (by decide)
      rw [List.flatMap_cons, hc, infix_behind skipped, List.infix_cons_iff, List.cons_prefix_cons]
      simpa [other] using ih

theorem infix_quote (text : String) : part <:+: quote text ↔ part <:+: text.toList := by
  have unquoted : '"' ∉ part := fun h => absurd (hp.plain _ h) (by decide)
  have opened := infix_separated unquoted hp.nonempty [] (text.toList.flatMap escape ++ ['"'])
  rw [List.nil_append, infix_separated unquoted hp.nonempty] at opened
  rw [quote, opened, hp.infix_escape]
  simp [hp.nonempty]

end Part

mutual

/-- The texts inside a value, with names of fields and what is written without quotes. -/
def writtenTexts (numberText : JsonNumber → String) : Json → List String
  | .null => ["null"]
  | .bool value => [if value then "true" else "false"]
  | .number value => [numberText value]
  | .string text => [text]
  | .array items => writtenItems numberText items
  | .object fields => writtenFields numberText fields

def writtenItems (numberText : JsonNumber → String) : List Json → List String
  | [] => []
  | item :: items => writtenTexts numberText item ++ writtenItems numberText items

def writtenFields (numberText : JsonNumber → String) : List (String × Json) → List String
  | [] => []
  | (name, value) :: fields =>
    name :: (writtenTexts numberText value ++ writtenFields numberText fields)

end

section Found

variable (numberText : JsonNumber → String)

/-- The part is found in one of the texts. -/
def Found (part : List Char) (texts : List String) : Prop := ∃ text ∈ texts, part <:+: text.toList

variable {part : List Char}

theorem found_append (a b : List String) : Found part (a ++ b) ↔ Found part a ∨ Found part b := by
  simp only [Found, List.mem_append, or_and_right, exists_or]

theorem found_cons (text : String) (texts : List String) :
    Found part (text :: texts) ↔ part <:+: text.toList ∨ Found part texts := by
  simp [Found]

variable (hp : Part part)

include hp

theorem Part.infix_delimited {x : Char} (hx : x ∈ ['[', ']', '{', '}', ',', ':'])
    (a b : List Char) : part <:+: a ++ x :: b ↔ part <:+: a ∨ part <:+: b :=
  infix_separated (fun h => hp.delimits x h hx) hp.nonempty a b

theorem Part.infix_delimiter {x : Char} (hx : x ∈ ['[', ']', '{', '}', ',', ':'])
    (b : List Char) : part <:+: x :: b ↔ part <:+: b := by
  have found := hp.infix_delimited hx [] b
  rw [List.nil_append] at found
  rw [found]
  simp [hp.nonempty]

mutual

theorem infix_stringify : ∀ value : Json,
    part <:+: stringify numberText value ↔ Found part (writtenTexts numberText value)
  | .null => by simp [stringify, writtenTexts, Found]
  | .bool value => by simp [stringify, writtenTexts, Found]
  | .number value => by simp [stringify, writtenTexts, Found]
  | .string text => by simp [stringify, writtenTexts, Found, hp.infix_quote]
  | .array [] => by
    rw [stringify, hp.infix_delimiter (by decide), hp.infix_delimiter (by decide)]
    simp [writtenTexts, writtenItems, Found, hp.nonempty]
  | .array (item :: items) => by
    rw [stringify, hp.infix_delimiter (by decide), writtenTexts, writtenItems, found_append,
      ← infix_stringify item, infix_stringifyItems]
  | .object [] => by
    rw [stringify, hp.infix_delimiter (by decide), hp.infix_delimiter (by decide)]
    simp [writtenTexts, writtenFields, Found, hp.nonempty]
  | .object ((name, value) :: fields) => by
    have behind := infix_stringifyFields (stringify numberText value) [] fields
    rw [List.append_nil] at behind
    rw [stringify, hp.infix_delimiter (by decide), hp.infix_delimited (by decide), hp.infix_quote,
      behind, infix_stringify value, writtenTexts, writtenFields, found_cons, found_append]
    simp [hp.nonempty]

theorem infix_stringifyItems (front : List Char) : ∀ items : List Json,
    part <:+: front ++ stringifyItems numberText items ↔
      part <:+: front ∨ Found part (writtenItems numberText items)
  | [] => by
    rw [stringifyItems, hp.infix_delimited (by decide)]
    simp [writtenItems, Found, hp.nonempty]
  | item :: items => by
    rw [stringifyItems, hp.infix_delimited (by decide), infix_stringifyItems, infix_stringify item,
      writtenItems, found_append]

theorem infix_stringifyFields (front back : List Char) : ∀ fields : List (String × Json),
    part <:+: front ++ (stringifyFields numberText fields ++ back) ↔
      part <:+: front ∨ Found part (writtenFields numberText fields) ∨ part <:+: back
  | [] => by
    rw [stringifyFields, List.singleton_append, hp.infix_delimited (by decide)]
    simp [writtenFields, Found]
  | (name, value) :: fields => by
    rw [stringifyFields, List.cons_append, hp.infix_delimited (by decide), List.append_assoc,
      List.cons_append, hp.infix_delimited (by decide), hp.infix_quote, List.append_assoc,
      infix_stringifyFields, infix_stringify value, writtenFields, found_cons, found_append]
    simp only [or_assoc]

end

/-- Next to other text, the text of an object is a place of its own. -/
theorem infix_object (front back : List Char) (fields : List (String × Json)) :
    part <:+: front ++ (stringify numberText (.object fields) ++ back) ↔
      part <:+: front ∨ Found part (writtenFields numberText fields) ∨ part <:+: back := by
  cases fields with
  | nil =>
    rw [stringify, List.cons_append, hp.infix_delimited (by decide), List.singleton_append,
      hp.infix_delimiter (by decide)]
    simp [writtenFields, Found]
  | cons field fields =>
    rw [stringify, List.cons_append, hp.infix_delimited (by decide), List.append_assoc,
      List.cons_append, hp.infix_delimited (by decide), hp.infix_quote, List.append_assoc,
      infix_stringifyFields numberText hp, infix_stringify numberText hp field.2, writtenFields,
      found_cons, found_append]
    simp only [or_assoc]

end Found

end EtherTrade.JsonTexts
