import EtherTrade.BalancesService
import EtherTrade.DecimalNumerals

/-!
# Texts of amounts

`validateAmount` of the balances service on any text. The library for big numbers is a
structure with what its documentation says of numerals: it reads them exactly, up to the largest
exponent that it is configured with, and writes a number without superfluous zeros.
-/

namespace EtherTrade.AmountValidation

open DecimalNumbers DecimalNumerals BalancesService StatusCodes

/-- `DECIMAL_SCALE` -/
def decimalScale : ℕ := 8

/-- `/^(0|[1-9]\d*)(\.\d{1,8})?$/` -/
def amountRegex : RegularExpression Char :=
  (.char '0' + oneOf "123456789".toList * digitPattern.star) *
    (1 + .char '.' * (digitPattern * upTo digitPattern 7))

structure BigNumberLibrary where
  /-- The second number of `RANGE`. -/
  maxExponent : ℕ
  /-- `new BigNumber(text)` -/
  read : String → BigNumber
  toFixed : BigNumber → String
  read_numeral : ∀ n : Numeral, n.places.length ≤ decimalScale →
    n.value < 10 ^ (maxExponent + 1) → read (String.ofList n.chars) = .finite n.value
  read_beyond : ∀ n : Numeral, n.places.length ≤ decimalScale →
    10 ^ (maxExponent + 1) ≤ n.value → read (String.ofList n.chars) = .infinite false
  toFixed_finite : ∀ n : Numeral, n.places.length ≤ decimalScale →
    n.value < 10 ^ (maxExponent + 1) → toFixed (.finite n.value) = String.ofList n.shortest.chars

def isFinite : BigNumber → Bool
  | .finite _ => true
  | _ => false

/-- `lte(0)` -/
def isAtMostZero : BigNumber → Bool
  | .nan => false
  | .infinite negative => negative
  | .finite q => decide (q ≤ 0)

def depositLimitExceeded (max : String) : BalanceException :=
  ⟨GrpcStatus.invalidArgument, "Deposit amount exceeds sandbox maximum of " ++ max,
    "DEPOSIT_LIMIT_EXCEEDED"⟩

def invalidAmount : BalanceException :=
  ⟨GrpcStatus.invalidArgument, BalancesErrors.invalidAmount, BalancesErrorCodes.invalidAmount⟩

variable (library : BigNumberLibrary)

/-- A maximum without a text counts as none. -/
def exceeds (value : BigNumber) : Option String → Bool
  | none => false
  | some maxAmount => maxAmount ≠ "" && value.isGreaterThan (library.read maxAmount)

def validateAmount (amount : String) (maxAmount : Option String) :
    Except BalanceException String :=
  if amount = "" || !amountRegex.rmatch (trim amount).toList then .error invalidAmount
  else
    let trimmed := trim amount
    let value := library.read trimmed
    if !isFinite value || isAtMostZero value then .error invalidAmount
    else if exceeds library value maxAmount then
      .error (depositLimitExceeded (maxAmount.getD ""))
    else .ok (library.toFixed value)

/-- What a `numeric(28, 8)` column stores for a text in plain notation. -/
def stored (text : String) : Option ℤ := (denotes text).bind fun q => (BigNumber.finite q).toColumn

end EtherTrade.AmountValidation
