/-
The shortest decimal that reads back as a given magnitude.

Among the decimals with the fewest digits that round to the magnitude, the
nearest is chosen. On each grid of one, two, three and more digits only the two
neighbours of the exact value are tried, because if any point of a grid rounds
to the magnitude then so does one of them. A magnitude halfway between its two
neighbours is settled by a rule that the caller gives.
-/
import DesignTokens.Number.Basic

namespace DesignTokens

inductive TieRule
  | evenDigit
  | upward
deriving DecidableEq

def TieRule.choose : TieRule → Nat → Nat
  | .evenDigit, lower => lower + lower % 2
  | .upward, lower => lower + 1

/-- A decimal in scientific form: `d.ddd` times ten to the exponent. -/
structure Scientific where
  digits : List Char
  exponent : Int
deriving DecidableEq

def decimalDigits (value : Nat) : List Char := Nat.toDigits 10 value

def Magnitude.overPower (magnitude : Magnitude) : Int → Nat × Nat
  | .ofNat power => (magnitude.units, unitsPerOne * Nat.pow 10 power)
  | .negSucc power => (magnitude.units * Nat.pow 10 (power + 1), unitsPerOne)

def Magnitude.ofDecimal? (coefficient : Nat) : Int → Option Magnitude
  | .ofNat power => Magnitude.ofRatio? (coefficient * Nat.pow 10 power) 1
  | .negSucc power => Magnitude.ofRatio? coefficient (Nat.pow 10 (power + 1))

/-- A power of ten, negated, that lies below every positive magnitude. -/
def leastPower : Nat := 400

def Magnitude.leadingExponent (magnitude : Magnitude) : Int :=
  let scaled := magnitude.units * Nat.pow 10 leastPower / unitsPerOne
  ((decimalDigits scaled).length : Int) - 1 - leastPower

/-- Which of two neighbours reads back and is nearer to a ratio. The ratio lies above the lower one
by the remainder, and the neighbours are the width apart. -/
def TieRule.neighbour? (tie : TieRule) (readsBack : Nat → Bool) (lower remainder width : Nat) :
    Option Nat :=
  match readsBack lower, readsBack (lower + 1) with
  | true, true =>
    if 2 * remainder = width then some (tie.choose lower)
    else some (if 2 * remainder < width then lower else lower + 1)
  | true, false => some lower
  | false, true => some (lower + 1)
  | false, false => none

/-- The decimal of this many digits that reads back as the magnitude and is nearest to it. -/
def Magnitude.onGrid? (magnitude : Magnitude) (tie : TieRule) (digits : Nat) :
    Option (Nat × Int) :=
  let place := magnitude.leadingExponent + 1 - digits
  let ratio := magnitude.overPower place
  let readsBack := fun coefficient =>
    decide (Magnitude.ofDecimal? coefficient place = some magnitude)
  (tie.neighbour? readsBack (ratio.1 / ratio.2) (ratio.1 % ratio.2) ratio.2).map fun coefficient =>
    (coefficient, place)

/-- How many digits always suffice to tell two magnitudes apart. -/
def sufficientDigits : Nat := 17

/-- A coefficient times a power of ten in scientific form, without trailing zeros. -/
def Scientific.ofCoefficient (coefficient : Nat) (place : Int) : Scientific :=
  let digits := decimalDigits coefficient
  ⟨(digits.reverse.dropWhile (· = '0')).reverse, place + digits.length - 1⟩

def Magnitude.shortest (magnitude : Magnitude) (tie : TieRule) : Scientific :=
  if magnitude.units = 0 then
    ⟨['0'], 0⟩
  else
    match (List.range sufficientDigits).findSome? fun more =>
        magnitude.onGrid? tie (more + 1) with
    | some (coefficient, place) => .ofCoefficient coefficient place
    | none =>
      let ratio := magnitude.overPower (magnitude.leadingExponent + 1 - sufficientDigits)
      .ofCoefficient (ratio.1 / ratio.2) (magnitude.leadingExponent + 1 - sufficientDigits)

end DesignTokens
