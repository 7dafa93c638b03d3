/-
The written forms of numbers.

Every form writes a number without a fractional part and within the whole limit
as an integer. Other numbers have the shortest digits that read back, laid out
positionally or with an exponent as the form decides.
-/
import DesignTokens.Number.Shortest

namespace DesignTokens

def signed (negative : Bool) (text : List Char) : List Char :=
  if negative then '-' :: text else text

def integerText (value : Int) : List Char :=
  signed (decide (value < 0)) (decimalDigits value.natAbs)

namespace Scientific

def isWhole (decimal : Scientific) : Bool :=
  (decimal.digits.length : Int) ≤ decimal.exponent + 1

/-- The decimal without an exponent; a whole one has no point. -/
def positional (decimal : Scientific) : List Char :=
  match decimal.exponent with
  | .ofNat exponent =>
    let places := exponent + 1
    if decimal.digits.length ≤ places then
      decimal.digits ++ List.replicate (places - decimal.digits.length) '0'
    else
      decimal.digits.take places ++ '.' :: decimal.digits.drop places
  | .negSucc zeros => '0' :: '.' :: (List.replicate zeros '0' ++ decimal.digits)

/-- The decimal without an exponent; a whole one ends in a point and a zero. -/
def pointed (decimal : Scientific) : List Char :=
  if decimal.isWhole then decimal.positional ++ ['.', '0'] else decimal.positional

def exponential (decimal : Scientific) : List Char :=
  let fraction := decimal.digits.drop 1
  let mark := if decimal.exponent < 0 then '-' else '+'
  decimal.digits.take 1 ++ (if fraction.isEmpty then [] else '.' :: fraction)
    ++ 'e' :: mark :: decimalDigits decimal.exponent.natAbs

end Scientific

namespace Number

/-- The text of a number for people and style sheets: never an exponent, and a tie goes up. -/
def displayText (number : Number) : List Char :=
  match number.whole? with
  | some value => integerText value
  | none =>
    match number with
    | .nan => ['N', 'a', 'N']
    | .infinity negative => signed negative ['i', 'n', 'f']
    | .finite negative magnitude => signed negative (magnitude.shortest .upward).positional

/-- The least and greatest exponents of the leading digit that JSON text writes positionally. -/
def jsonPositional : Int × Int := (-5, 15)

/-- The text of a number in JSON, a tie going to the even digit. What is not finite is null. -/
def jsonText (number : Number) : List Char :=
  match number.whole? with
  | some value => integerText value
  | none =>
    match number with
    | .finite negative magnitude =>
      let decimal := magnitude.shortest .evenDigit
      let positionally :=
        jsonPositional.1 ≤ decimal.exponent ∧ decimal.exponent ≤ jsonPositional.2
      signed negative (if positionally then decimal.pointed else decimal.exponential)
    | _ => ['n', 'u', 'l', 'l']

/-- The text of a TOML float: never an exponent, always a point, and a tie goes up. -/
def tomlText : Number → List Char
  | .nan => ['n', 'a', 'n']
  | .infinity negative => signed negative ['i', 'n', 'f']
  | .finite negative magnitude => signed negative (magnitude.shortest .upward).pointed

end Number

end DesignTokens
