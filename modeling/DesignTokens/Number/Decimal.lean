/-
Decimal numerals and the numbers they denote.

A numeral has a sign, a coefficient and a power of ten, and denotes the number
nearest to its exact value. Numerals whose power of ten is far out of range are
settled before the power is computed.

`Number.ofText?` reads the liberal notation of lengths: an optional sign, digits
with an optional point, an optional exponent, or a name of infinity or NaN in
any letter case.
-/
import DesignTokens.Number.Basic

namespace DesignTokens

/-- A decimal numeral: its value is the signed coefficient times a power of ten. -/
structure Decimal where
  negative : Bool
  coefficient : Nat
  exponent : Int
deriving DecidableEq

def appendDigit (value : Nat) (digit : Char) : Nat := 10 * value + (digit.toNat - '0'.toNat)

def digitsValue (digits : List Char) : Nat := digits.foldl appendDigit 0

def Decimal.ofDigits (negative : Bool) (whole fraction : List Char) (exponent : Int) : Decimal :=
  ⟨negative, digitsValue (whole ++ fraction), exponent - fraction.length⟩

/-- No magnitude reaches ten to this power, and one over it is less than half a unit. -/
def farPower : Nat := 400

def Decimal.toNumber (decimal : Decimal) : Number :=
  if decimal.coefficient = 0 then
    .zero decimal.negative
  else
    match decimal.exponent with
    | .ofNat power =>
      if farPower < power then .infinity decimal.negative
      else .ofRatio decimal.negative (decimal.coefficient * Nat.pow 10 power) 1
    | .negSucc power =>
      if farPower + decimal.coefficient.log2 < power then .zero decimal.negative
      else .ofRatio decimal.negative decimal.coefficient (Nat.pow 10 (power + 1))

/-! ### Reading digits and exponents -/

def takeDigits (text : List Char) : List Char × List Char :=
  (text.takeWhile Char.isDigit, text.dropWhile Char.isDigit)

/-- A sign at the front of a text (a minus is `true`), and the rest. -/
def takeSign : List Char → Bool × List Char
  | [] => (false, [])
  | c :: rest =>
    if c = '-' then (true, rest)
    else if c = '+' then (false, rest)
    else (false, c :: rest)

def takeFraction : List Char → List Char × List Char
  | [] => ([], [])
  | c :: rest => if c = '.' then takeDigits rest else ([], c :: rest)

def readExponentDigits? (text : List Char) : Option Int :=
  let signed := takeSign text
  let digits := takeDigits signed.2
  if digits.1.isEmpty || !digits.2.isEmpty then none
  else
    let value : Int := digitsValue digits.1
    some (if signed.1 then -value else value)

def readExponent? : List Char → Option Int
  | [] => some 0
  | c :: rest => if c = 'e' || c = 'E' then readExponentDigits? rest else none

/-- A numeral without its sign: digits, an optional point, an optional exponent, and at least
one digit before the exponent. -/
def readUnsigned? (negative : Bool) (text : List Char) : Option Decimal :=
  let whole := takeDigits text
  let fraction := takeFraction whole.2
  if whole.1.isEmpty && fraction.1.isEmpty then none
  else
    (readExponent? fraction.2).map fun exponent =>
      .ofDigits negative whole.1 fraction.1 exponent

def Number.ofText? (text : List Char) : Option Number :=
  let signed := takeSign text
  let name := String.ofList (signed.2.map Char.toLower)
  if name = "nan" then some .nan
  else if name = "inf" || name = "infinity" then some (.infinity signed.1)
  else (readUnsigned? signed.1 signed.2).map Decimal.toNumber

end DesignTokens
