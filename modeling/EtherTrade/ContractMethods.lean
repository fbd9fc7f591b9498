import EtherTrade.ContractEvents
import EtherTrade.ReentrantCalls

/-!
# Methods of contracts

Messages between accounts, the encoding of a call of a method, and the dispatcher that a
contract with several methods starts with. A method is found by the first four bytes of
the data, which are those of the hash of its signature; its arguments follow, one word
each, and a word that is not the encoding of a value is refused.
-/

namespace EtherTrade.ContractMethods

open Keccak256 ContractEvents ReentrantCalls

abbrev Bytes := List Byte

structure Message where
  sender : Address
  receiver : Address
  value : Word
  data : Bytes
  deriving DecidableEq, Repr

/-! ### Arguments -/

/-- A value for each type. -/
def Args : List AbiType → Type
  | [] => Unit
  | type :: types => type.Value × Args types

def encodeArgs : (types : List AbiType) → Args types → Bytes
  | [], _ => []
  | type :: types, (value, values) => toBytes 32 (type.encode value) ++ encodeArgs types values

/-- The value that the first word encodes. -/
def decodeWord (type : AbiType) (data : Bytes) : Option type.Value :=
  let word := ofBytes 256 (data.take 32)
  if data.length < 32 then none
  else if type.encode (type.decode word) = word then some (type.decode word)
  else none

def decodeArgs : (types : List AbiType) → Bytes → Option (Args types)
  | [], _ => some ()
  | type :: types, data =>
    (decodeWord type data).bind fun value =>
      (decodeArgs types (data.drop 32)).map fun values => (value, values)

theorem decodeWord_encode (type : AbiType) (value : type.Value) (rest : Bytes) :
    decodeWord type (toBytes 32 (type.encode value) ++ rest) = some value := by
  have hlength : (toBytes 32 (type.encode value)).length = 32 := length_toBytes _
  have hlong : ¬(toBytes 32 (type.encode value) ++ rest).length < 32 := by
    rw [List.length_append, hlength]
    omega
  have hword : ofBytes 256 ((toBytes 32 (type.encode value) ++ rest).take 32) =
      type.encode value := by
    rw [List.take_left' hlength]
    exact @ofBytes_toBytes 32 (type.encode value)
  have hdecode := type.decode_encode value
  simp only [decodeWord, if_neg hlong, hword, hdecode, if_true]

theorem decodeArgs_encodeArgs (types : List AbiType) (values : Args types) :
    decodeArgs types (encodeArgs types values) = some values := by
  induction types with
  | nil => rfl
  | cons type types ih =>
    obtain ⟨value, values⟩ := values
    have hlength : (toBytes 32 (type.encode value)).length = 32 := length_toBytes _
    rw [encodeArgs, decodeArgs, decodeWord_encode, List.drop_left' hlength, ih values]
    rfl

/-! ### Selectors -/

abbrev Selector := BitVec 32

/-- The first four bytes of the hash of a signature. -/
def selectorOf (signature : String) : Selector :=
  (keccak256 (Event.asciiBytes signature) >>> 224).setWidth 32

def encodeWithSelector (selector : Selector) (types : List AbiType) (values : Args types) : Bytes :=
  toBytes 4 selector ++ encodeArgs types values

/-- The data of a custom error without arguments. -/
def errorData (name : String) : Bytes := toBytes 4 (selectorOf (name ++ "()"))

/-- A method that the outside can call, with what it does for a message and its arguments. -/
structure Method (σ : Type) where
  name : String
  inputs : List AbiType
  payable : Bool
  body : Message → Args inputs → Program σ Message Bytes Bytes

variable {σ : Type}

def Method.selector (f : Method σ) : Selector :=
  selectorOf (f.name ++ "(" ++ ",".intercalate (f.inputs.map AbiType.name) ++ ")")

theorem Method.selector_of_signature {f : Method σ} {name text : String} {types : List String}
    {selector : Selector} (hname : f.name = name) (htypes : f.inputs.map AbiType.name = types)
    (htext : name ++ "(" ++ ",".intercalate types ++ ")" = text)
    (hselector : selectorOf text = selector) : f.selector = selector := by
  rw [Method.selector, hname, htypes, htext, hselector]

/-- A method with another selector is passed over. -/
theorem find_selector_of_ne {f : Method σ} {methods : List (Method σ)} {selector other : Selector}
    (hother : f.selector = other) (hne : other ≠ selector) :
    (f :: methods).find? (fun f => f.selector = selector) =
      methods.find? fun f => f.selector = selector := by
  refine List.find?_cons_of_neg fun h => hne ?_
  rw [decide_eq_true_iff] at h
  exact hother.symm.trans h

/-- What a contract does with a message: `receive` for one without data, else the method that
the data names. -/
def dispatch (methods : List (Method σ)) (receive : Message → Program σ Message Bytes Bytes)
    (m : Message) : Program σ Message Bytes Bytes :=
  if m.data = [] then receive m
  else if m.data.length < 4 then .revert []
  else
    match methods.find? fun f => f.selector = ofBytes 32 (m.data.take 4) with
    | none => .revert []
    | some f =>
      if f.payable = false ∧ m.value ≠ 0 then .revert []
      else
        match decodeArgs f.inputs (m.data.drop 4) with
        | none => .revert []
        | some args => f.body m args

variable {methods : List (Method σ)} {receive : Message → Program σ Message Bytes Bytes}
  {m : Message} {f : Method σ} {Spec : Message → σ → Except Bytes Bytes → σ → Prop}
  {Q : Bytes → σ → Prop} {s : σ}

/-- What `receive` and every method ensure, the contract ensures. -/
theorem dispatch_ensures (hreceive : m.data = [] → (receive m).Ensures Spec Q s)
    (hmethods : ∀ f ∈ methods, ∀ args, (f.payable = false → m.value = 0) →
      (f.body m args).Ensures Spec Q s) : (dispatch methods receive m).Ensures Spec Q s := by
  unfold dispatch
  split
  · next hdata => exact hreceive hdata
  · split
    · trivial
    · split
      · trivial
      · next f hfind =>
        split
        · trivial
        · next hpays =>
          split
          · trivial
          · next args _ =>
            refine hmethods f (List.mem_of_find?_eq_some hfind) args fun hpayable => ?_
            exact not_not.mp fun hvalue => hpays ⟨hpayable, hvalue⟩

theorem dispatch_silent (hreceive : (receive m).Silent)
    (hmethods : ∀ f ∈ methods, ∀ args, (f.body m args).Silent) :
    (dispatch methods receive m).Silent := by
  unfold dispatch
  split
  · exact hreceive
  · split
    · trivial
    · split
      · trivial
      · next f hfind =>
        split
        · trivial
        · split
          · trivial
          · next args _ => exact hmethods f (List.mem_of_find?_eq_some hfind) args

/-- The data of a call that starts with the selector of a method reaches it. -/
theorem dispatch_encode {selector : Selector} {args : Args f.inputs}
    (hfind : (methods.find? fun f => f.selector = selector) = some f)
    (hdata : m.data = encodeWithSelector selector f.inputs args)
    (hvalue : f.payable = false → m.value = 0) : dispatch methods receive m = f.body m args := by
  have hlength : (toBytes 4 selector).length = 4 := length_toBytes _
  have hselector : ofBytes 32 (toBytes 4 selector) = selector := @ofBytes_toBytes 4 selector
  have hlong : ¬m.data.length < 4 := by
    rw [hdata, encodeWithSelector, List.length_append, hlength]
    omega
  have hne : m.data ≠ [] := by
    rintro heq
    rw [heq] at hlong
    exact hlong (by decide)
  have hpays : ¬(f.payable = false ∧ m.value ≠ 0) := fun ⟨hpayable, h⟩ => h (hvalue hpayable)
  rw [dispatch, if_neg hne, if_neg hlong, hdata, encodeWithSelector, List.take_left' hlength,
    List.drop_left' hlength, hselector, hfind]
  simp only [if_neg hpays, decodeArgs_encodeArgs]

end EtherTrade.ContractMethods
