/-
Binary64 numbers in exact form.

A finite number is a sign and a magnitude, and a magnitude is a whole count of
the smallest positive number, two to the power -1074. Reading a ratio rounds it
to the nearest magnitude, a tie to the one with the even significand; the only
ratios without a magnitude are those that round past the largest one.

No arithmetic beyond rounding is defined here: tokens carry numbers, they do
not compute with them.
-/

namespace DesignTokens

/-- How many units make one. The unit is the smallest positive number. -/
def unitsPerOne : Nat := Nat.pow 2 1074

/-- The first count of units that is too large for a finite number: 2 to the power 1024. -/
def unitLimit : Nat := Nat.pow 2 2098

/-- The counts of units that are finite magnitudes: below the limit, and with at most 53
significant bits. -/
def Representable (units : Nat) : Prop :=
  units < unitLimit ∧ Nat.pow 2 (units.log2 - 52) ∣ units

instance (units : Nat) : Decidable (Representable units) :=
  inferInstanceAs (Decidable (_ ∧ _))

theorem unitsPerOne_pos : 0 < unitsPerOne := by
  unfold unitsPerOne
  apply Nat.pow_pos
  decide

theorem representable_zero : Representable 0 := by
  refine ⟨?_, Nat.dvd_zero _⟩
  unfold unitLimit
  apply Nat.pow_pos
  decide

/-- The magnitude of a finite number, counted in units. -/
structure Magnitude where
  units : Nat
  representable : Representable units
deriving DecidableEq

inductive Number
  | nan
  | infinity (negative : Bool)
  | finite (negative : Bool) (magnitude : Magnitude)
deriving DecidableEq

/-! ### Rounding -/

/-- The whole number nearest to a ratio, a tie going to the even one. -/
def roundHalfEven (numerator denominator : Nat) : Nat :=
  let quotient := numerator / denominator
  let remainder := numerator % denominator
  if 2 * remainder < denominator then quotient
  else if 2 * remainder = denominator then quotient + quotient % 2
  else quotient + 1

/-- The exponent of the last place of a count of units with 53 significant bits. -/
def lastPlace (units : Nat) : Nat := units.log2 - 52

/-- The count of units nearest to a ratio of units among those with at most 53 significant
bits. -/
def roundedUnits (numerator denominator : Nat) : Nat :=
  let step := Nat.pow 2 (lastPlace (numerator / denominator))
  roundHalfEven numerator (denominator * step) * step

theorem roundHalfEven_le (numerator denominator bound : Nat)
    (below : numerator < denominator * bound) :
    roundHalfEven numerator denominator ≤ bound := by
  have quotientBelow : numerator / denominator < bound := Nat.div_lt_of_lt_mul below
  unfold roundHalfEven
  grind

theorem lt_pow_lastPlace (units : Nat) :
    units < Nat.pow 2 (lastPlace units + 53) := by
  have small : units < Nat.pow 2 (units.log2 + 1) := Nat.lt_log2_self
  have wide : Nat.pow 2 (units.log2 + 1) ≤ Nat.pow 2 (lastPlace units + 53) :=
    Nat.pow_le_pow_right (by decide) (by unfold lastPlace; omega)
  exact Nat.lt_of_lt_of_le small wide

/-- A product of a significand of at most 53 bits and a power of two is divided by the power
that its own length asks for. -/
theorem pow_log2_dvd_mul_pow (significand place : Nat)
    (small : significand ≤ Nat.pow 2 53) :
    Nat.pow 2 ((significand * Nat.pow 2 place).log2 - 52) ∣ significand * Nat.pow 2 place := by
  rcases Nat.lt_or_eq_of_le small with inside | carried
  · have total : significand * Nat.pow 2 place < Nat.pow 2 (53 + place) := by
      have split : Nat.pow 2 (53 + place) = Nat.pow 2 53 * Nat.pow 2 place :=
        Nat.pow_add 2 53 place
      rw [split]
      exact Nat.mul_lt_mul_of_pos_right inside (Nat.two_pow_pos place)
    have bits : (significand * Nat.pow 2 place).log2 - 52 ≤ place := by
      by_cases zero : significand * Nat.pow 2 place = 0
      · rw [zero, Nat.log2_zero]
        omega
      · have := (Nat.log2_lt zero).mpr total
        omega
    exact Nat.dvd_mul_left_of_dvd (Nat.pow_dvd_pow 2 bits) significand
  · have power : significand * Nat.pow 2 place = Nat.pow 2 (53 + place) := by
      rw [carried]
      exact (Nat.pow_add 2 53 place).symm
    have length : (Nat.pow 2 (53 + place)).log2 = 53 + place := Nat.log2_two_pow
    rw [power, length]
    exact Nat.pow_dvd_pow 2 (by omega)

theorem pow_dvd_roundedUnits (numerator denominator : Nat) (positive : 0 < denominator) :
    Nat.pow 2 ((roundedUnits numerator denominator).log2 - 52) ∣
      roundedUnits numerator denominator := by
  apply pow_log2_dvd_mul_pow
  apply roundHalfEven_le
  have quotientSmall := lt_pow_lastPlace (numerator / denominator)
  have split : Nat.pow 2 (lastPlace (numerator / denominator) + 53)
      = Nat.pow 2 (lastPlace (numerator / denominator)) * Nat.pow 2 53 :=
    Nat.pow_add 2 _ 53
  rw [Nat.mul_assoc, ← split, Nat.mul_comm]
  exact (Nat.div_lt_iff_lt_mul positive).mp quotientSmall

/-- The magnitude nearest to a ratio of ones; absent when it rounds past the largest one. -/
def Magnitude.ofRatio? (numerator denominator : Nat) : Option Magnitude :=
  if positive : 0 < denominator then
    let units := roundedUnits (numerator * unitsPerOne) denominator
    if fits : units < unitLimit then
      some ⟨units, fits, pow_dvd_roundedUnits _ _ positive⟩
    else
      none
  else
    none

namespace Number

/-- The number nearest to a signed ratio, an infinity when it is too large. -/
def ofRatio (negative : Bool) (numerator denominator : Nat) : Number :=
  match Magnitude.ofRatio? numerator denominator with
  | some magnitude => .finite negative magnitude
  | none => .infinity negative

def zero (negative : Bool) : Number :=
  .finite negative ⟨0, representable_zero⟩

def ofInt (whole : Int) : Number :=
  ofRatio (decide (whole < 0)) whole.natAbs 1

/-! ### Questions about a number -/

/-- Numeric equality: a NaN differs from everything, and the two zeros are equal. -/
def equals : Number → Number → Bool
  | .infinity left, .infinity right => left == right
  | .finite left leftMagnitude, .finite right rightMagnitude =>
    leftMagnitude.units == rightMagnitude.units
      && (left == right || leftMagnitude.units == 0)
  | _, _ => false

def integer? : Number → Option Int
  | .finite negative magnitude =>
    if magnitude.units % unitsPerOne = 0 then
      let ones : Int := (magnitude.units / unitsPerOne : Nat)
      some (if negative then -ones else ones)
    else
      none
  | _ => none

/-- The largest whole number below which every whole number is a binary64 number. -/
def wholeLimit : Nat := 9007199254740991

/-- The value of a number that is written as a whole number: no fractional part, and not
beyond the limit. -/
def whole? (number : Number) : Option Int :=
  number.integer?.filter fun value => value.natAbs ≤ wholeLimit

def isFinite : Number → Bool
  | .finite _ _ => true
  | _ => false

end Number

end DesignTokens
