/-
Numerals that are read by their significand.

The digits of a numeral go into a significand of 64 bits for as long as they fit.
From the first digit on that does not, digits before the point only count as
places and digits behind it are passed over. The significand becomes a number and
is then multiplied or divided by a power of ten, which is a number as well, so
there are two roundings where `Decimal.toNumber` has one: `94.52706955539223` is
read as `94.52706955539225`. A number that grows too large on the way is refused.
-/
import DesignTokens.Number.Decimal

namespace DesignTokens

/-! ### The significand -/

/-- The first whole number that does not fit into a significand. -/
def significandLimit : Nat := Nat.pow 2 64

/-- A significand continued by the digits that fit, and the digits from the first on that does
not. -/
def takeFitting (significand : Nat) : List Char → Nat × List Char
  | [] => (significand, [])
  | digit :: rest =>
    let longer := appendDigit significand digit
    if longer < significandLimit then takeFitting longer rest else (significand, digit :: rest)

/-- The numeral with the digits that fit. -/
def Decimal.ofFitting (negative : Bool) (whole fraction : List Char) (exponent : Int) : Decimal :=
  let ones := takeFitting 0 whole
  let all := takeFitting ones.1 fraction
  let places : Int := (fraction.length - all.2.length : Nat)
  ⟨negative, all.1, exponent + ones.2.length - places⟩

/-! ### Scaling by powers of ten -/

/-- The exponent of the largest power of ten that is a number. -/
def greatestPower : Nat := 308

namespace Magnitude

def powerOfTen? (power : Nat) : Option Magnitude := ofRatio? (Nat.pow 10 power) 1

def times? (left right : Magnitude) : Option Magnitude :=
  ofRatio? (left.units * right.units) (unitsPerOne * unitsPerOne)

def dividedBy? (left right : Magnitude) : Option Magnitude := ofRatio? left.units right.units

def timesPower? (magnitude : Magnitude) (power : Nat) : Option Magnitude :=
  if power ≤ greatestPower then (powerOfTen? power).bind magnitude.times?
  else if magnitude.units = 0 then some magnitude
  else none

/-- The magnitude divided by the greatest power this often, or until nothing is left of it. -/
def dividedByGreatest? (magnitude : Magnitude) : Nat → Option Magnitude
  | 0 => some magnitude
  | often + 1 =>
    if magnitude.units = 0 then some magnitude
    else
      ((powerOfTen? greatestPower).bind magnitude.dividedBy?).bind (·.dividedByGreatest? often)

def dividedByPower? (magnitude : Magnitude) (power : Nat) : Option Magnitude :=
  let often := (power - 1) / greatestPower
  (magnitude.dividedByGreatest? often).bind fun rest =>
    (powerOfTen? (power - often * greatestPower)).bind rest.dividedBy?

/-- The magnitude times a power of ten, which may be negative. -/
def scaled? (magnitude : Magnitude) : Int → Option Magnitude
  | .ofNat power => magnitude.timesPower? power
  | .negSucc power => magnitude.dividedByPower? (power + 1)

end Magnitude

/-- The number that a numeral is read as by its significand; absent when it grows too large. -/
def Decimal.scaled? (decimal : Decimal) : Option Number :=
  ((Magnitude.ofRatio? decimal.coefficient 1).bind (·.scaled? decimal.exponent)).map
    (.finite decimal.negative)

end DesignTokens
