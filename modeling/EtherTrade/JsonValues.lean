import Mathlib.Data.Rat.Defs

/-!
# JSON values

What `JSON.parse` returns, and how the language reads it: which values count as false,
the value of a property, and strict equality. A property that is not there is `none`.
-/

namespace EtherTrade.JsonValues

/-- A numeral stands for a finite number, or for an infinity when it is too large. -/
inductive JsonNumber where
  | finite (value : ℚ)
  | infinite (negative : Bool)
  deriving DecidableEq, Repr

inductive Json where
  | null
  | bool (value : Bool)
  | number (value : JsonNumber)
  | string (text : String)
  | array (items : List Json)
  | object (fields : List (String × Json))

namespace Json

def truthy : Json → Bool
  | .null => false
  | .bool value => value
  | .number value => value ≠ .finite 0
  | .string text => text ≠ ""
  | .array _ | .object _ => true

/-- The value of a property, for a name that no prototype has. Of fields with one name the
last counts. -/
def get (name : String) : Json → Option Json
  | .object fields => (fields.reverse.find? fun field => field.1 = name).map Prod.snd
  | _ => none

mutual

/-- The texts inside a value, names of fields apart. -/
def strings : Json → List String
  | .string text => [text]
  | .array items => itemStrings items
  | .object fields => fieldStrings fields
  | _ => []

def itemStrings : List Json → List String
  | [] => []
  | item :: items => item.strings ++ itemStrings items

def fieldStrings : List (String × Json) → List String
  | [] => []
  | (_, value) :: fields => value.strings ++ fieldStrings fields

end

mutual

/-- `String(value)`: an array is the texts of its items, and an object has a text unless a
field of its own takes the place of `toString`. -/
def toText (numberText : JsonNumber → String) : Json → Option String
  | .null => some "null"
  | .bool value => some (if value then "true" else "false")
  | .number value => some (numberText value)
  | .string text => some text
  | .array items => (itemTexts numberText items).map ",".intercalate
  | .object fields => if fields.any (·.1 = "toString") then none else some "[object Object]"

def itemTexts (numberText : JsonNumber → String) : List Json → Option (List String)
  | [] => some []
  | .null :: items => (itemTexts numberText items).map ("" :: ·)
  | item :: items => do
    let text ← item.toText numberText
    let texts ← itemTexts numberText items
    return text :: texts

end

end Json

/-- The value of a property is there and does not count as false. -/
def truthy (value : Option Json) : Bool := value.any Json.truthy

/-- `===` of two values read from different places: arrays and objects differ. -/
def strictlyEqual : Option Json → Option Json → Bool
  | none, none => true
  | some .null, some .null => true
  | some (.bool a), some (.bool b) => a = b
  | some (.number a), some (.number b) => a = b
  | some (.string a), some (.string b) => a = b
  | _, _ => false

theorem eq_of_strictlyEqual_string {value : Option Json} {text : String}
    (h : strictlyEqual value (some (.string text)) = true) : value = some (.string text) := by
  unfold strictlyEqual at h
  split at h
  · next heq => cases heq
  · next heq => cases heq
  · next heq => cases heq
  · next heq => cases heq
  · next heq =>
    obtain rfl := Json.string.inj (Option.some.inj heq)
    rw [of_decide_eq_true h]
  · cases h

end EtherTrade.JsonValues
