/-
Numerals that lose nothing to the second rounding.

A significand of at most 53 bits and a power of ten up to the twenty-second are
numbers themselves. Only multiplying or dividing them rounds then, and what is
read is the number that the numeral denotes.
-/
import DesignTokens.Number.Significand
import DesignTokens.Proofs.Number.Numeral

namespace DesignTokens

/-! ### Digits that fit -/

theorem le_foldl_appendDigit (value : Nat) (digits : List Char) :
    value ≤ digits.foldl appendDigit value := by
  induction digits generalizing value with
  | nil => exact Nat.le_refl value
  | cons digit rest ih =>
      have longer : value ≤ appendDigit value digit := by
        unfold appendDigit
        omega
      exact Nat.le_trans longer (ih (appendDigit value digit))

theorem takeFitting_of_lt {significand : Nat} {digits : List Char}
    (fits : digits.foldl appendDigit significand < significandLimit) :
    takeFitting significand digits = (digits.foldl appendDigit significand, []) := by
  induction digits generalizing significand with
  | nil => rfl
  | cons digit rest ih =>
      have here : appendDigit significand digit < significandLimit :=
        Nat.lt_of_le_of_lt (le_foldl_appendDigit _ rest) fits
      rw [takeFitting, if_pos here, ih fits, List.foldl_cons]

theorem Decimal.ofFitting_of_lt {whole fraction : List Char}
    (fits : digitsValue (whole ++ fraction) < significandLimit) (negative : Bool)
    (exponent : Int) :
    ofFitting negative whole fraction exponent = ofDigits negative whole fraction exponent := by
  rw [digitsValue, List.foldl_append] at fits
  have ones := takeFitting_of_lt (Nat.lt_of_le_of_lt (le_foldl_appendDigit _ fraction) fits)
  have all := takeFitting_of_lt fits
  rw [ofFitting, ofDigits, digitsValue, List.foldl_append, ones]
  dsimp only
  rw [all]
  simp

/-! ### Scaling what is exact -/

namespace Magnitude

variable {magnitude : Magnitude} {ones power : Nat}

/-- Whole numbers with a significand of 53 bits are magnitudes, up to far beyond any power of ten
that is asked for. -/
theorem exists_ofRatio?_ones {significand place : Nat} (small : significand ≤ Nat.pow 2 53)
    (low : place ≤ 900) :
    ∃ magnitude : Magnitude,
      ofRatio? (significand * Nat.pow 2 place) 1 = some magnitude ∧
        magnitude.units = significand * Nat.pow 2 place * unitsPerOne := by
  -- The exponents are named, so that nothing computes the powers.
  obtain ⟨unit, highest, isUnit, within, limit⟩ : ∃ unit highest, unitsPerOne = Nat.pow 2 unit ∧
      900 + unit ≤ highest ∧ Nat.pow 2 53 * Nat.pow 2 highest < unitLimit :=
    ⟨1074, 1974, by decide +kernel, by decide, by decide +kernel⟩
  have units : significand * Nat.pow 2 place * unitsPerOne =
      significand * Nat.pow 2 (place + unit) := by
    have split : Nat.pow 2 (place + unit) = Nat.pow 2 place * Nat.pow 2 unit := Nat.pow_add 2 _ _
    rw [split, isUnit, Nat.mul_assoc]
  have below : significand * Nat.pow 2 (place + unit) < unitLimit := by
    have power : Nat.pow 2 (place + unit) ≤ Nat.pow 2 highest :=
      Nat.pow_le_pow_right (by decide) (by omega)
    exact Nat.lt_of_le_of_lt (Nat.mul_le_mul small power) limit
  have fits : Representable (significand * Nat.pow 2 place * unitsPerOne) := by
    rw [units]
    exact ⟨below, pow_log2_dvd_mul_pow _ _ small⟩
  exact ⟨⟨_, fits⟩, ofRatio?_ones rfl, rfl⟩

theorem exists_powerOfTen? (small : power ≤ 22) :
    ∃ magnitude : Magnitude, powerOfTen? power = some magnitude ∧
      magnitude.units = Nat.pow 10 power * unitsPerOne := by
  have split : Nat.pow 10 power = Nat.pow 5 power * Nat.pow 2 power := Nat.mul_pow 5 2 power
  have bits : Nat.pow 5 power ≤ Nat.pow 2 53 :=
    Nat.le_trans (Nat.pow_le_pow_right (by decide) small) (by decide)
  rw [powerOfTen?, split]
  exact exists_ofRatio?_ones bits (by omega)

theorem timesPower?_of_exact (counted : magnitude.units = ones * unitsPerOne)
    (small : power ≤ 22) :
    magnitude.timesPower? power = ofRatio? (ones * Nat.pow 10 power) 1 := by
  obtain ⟨factor, isFactor, factorUnits⟩ := exists_powerOfTen? small
  have within : power ≤ greatestPower := Nat.le_trans small (by decide)
  have scale : 0 < unitsPerOne * unitsPerOne := Nat.mul_pos unitsPerOne_pos unitsPerOne_pos
  rw [timesPower?, if_pos within, isFactor, Option.bind_some, times?, counted, factorUnits,
    Nat.mul_mul_mul_comm]
  exact ofRatio?_congr scale Nat.one_pos (Nat.mul_one _)

theorem dividedByPower?_of_exact (counted : magnitude.units = ones * unitsPerOne)
    (small : power ≤ 22) :
    magnitude.dividedByPower? power = ofRatio? ones (Nat.pow 10 power) := by
  obtain ⟨divisor, isDivisor, divisorUnits⟩ := exists_powerOfTen? small
  have once : (power - 1) / greatestPower = 0 := Nat.div_eq_of_lt (by unfold greatestPower; omega)
  rw [dividedByPower?, once, dividedByGreatest?, Option.bind_some, Nat.zero_mul, Nat.sub_zero,
    isDivisor, Option.bind_some, dividedBy?, counted, divisorUnits]
  exact ofRatio?_mul_right unitsPerOne_pos (Nat.pow_pos (by decide))

theorem scaled?_of_exact {exponent : Int} (counted : magnitude.units = ones * unitsPerOne)
    (small : exponent.natAbs ≤ 22) : magnitude.scaled? exponent = ofDecimal? ones exponent := by
  cases exponent with
  | ofNat power => exact timesPower?_of_exact counted small
  | negSucc power => exact dividedByPower?_of_exact counted small

end Magnitude

namespace Decimal

theorem magnitude_lt_of_exact {decimal : Decimal} (short : decimal.coefficient ≤ Nat.pow 2 53)
    (small : decimal.exponent.natAbs ≤ 22) : decimal.magnitude < overflowBound := by
  have coefficient : (decimal.coefficient : ℚ) ≤ (Nat.pow 2 53 : Nat) := Nat.cast_le.mpr short
  have power : (10 : ℚ) ^ decimal.exponent ≤ 10 ^ (22 : Int) :=
    zpow_le_zpow_right₀ (by norm_num) (by omega)
  have bound : Nat.pow 2 53 * Nat.pow 10 22 < overflowBound := by decide +kernel
  calc decimal.magnitude ≤ (Nat.pow 2 53 : Nat) * 10 ^ (22 : Int) :=
        mul_le_mul coefficient power (zpow_nonneg (by norm_num) _) (Nat.cast_nonneg _)
    _ = (Nat.pow 2 53 * Nat.pow 10 22 : Nat) := by norm_num
    _ < overflowBound := Nat.cast_lt.mpr bound

theorem scaled?_of_exact {decimal : Decimal} (short : decimal.coefficient ≤ Nat.pow 2 53)
    (small : decimal.exponent.natAbs ≤ 22) : decimal.scaled? = some decimal.toNumber := by
  obtain ⟨magnitude, read, counted⟩ :=
    Magnitude.exists_ofRatio?_ones short (show 0 ≤ 900 by decide)
  have one : Nat.pow 2 0 = 1 := rfl
  rw [one, Nat.mul_one] at read counted
  have finite := (Magnitude.isSome_ofDecimal?_iff _ _).mpr (magnitude_lt_of_exact short small)
  obtain ⟨result, isResult⟩ := Option.isSome_iff_exists.mp finite
  rw [scaled?, read, Option.bind_some, Magnitude.scaled?_of_exact counted small, toNumber_eq,
    isResult]
  rfl

/-- A numeral whose digits make at most 53 bits, and whose last digit is at most 22 places away from
the ones, is read as the number that it denotes. -/
theorem scaled?_ofFitting {whole fraction : List Char} {exponent : Int}
    (short : digitsValue (whole ++ fraction) ≤ Nat.pow 2 53)
    (small : (exponent - fraction.length).natAbs ≤ 22) (negative : Bool) :
    (ofFitting negative whole fraction exponent).scaled? =
      some (ofDigits negative whole fraction exponent).toNumber := by
  rw [ofFitting_of_lt (Nat.lt_of_le_of_lt short (by decide))]
  exact scaled?_of_exact short small

/-- With one digit more than fits into 53 bits, a neighbour of that number may be read. -/
example :
    let read := (ofFitting false ['9', '4'] "52706955539223".toList 0).scaled?
    read = some (ofDigits false ['9', '4'] "52706955539225".toList 0).toNumber ∧
      read ≠ some (ofDigits false ['9', '4'] "52706955539223".toList 0).toNumber := by
  decide +kernel

end Decimal

end DesignTokens
