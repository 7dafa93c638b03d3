/-
Whole numbers, written as integers and read back.

The digits of an integer denote it, and a count of units that is already a
magnitude is not moved by rounding. So the integer that a whole number is
written as denotes the number again, but for the sign of a zero: `plain` is the
number without that sign, and equal numbers have one plain form.
-/
import DesignTokens.Number.Decimal
import DesignTokens.Proofs.Number.Equality
import DesignTokens.Proofs.Number.Rounding

namespace DesignTokens

/-! ### The digits of an integer -/

theorem digitsValue_decimalDigits (value : Nat) : digitsValue (decimalDigits value) = value :=
  Nat.ofDigitChars_ten_toDigits

/-- Only the digits of zero start with a zero. -/
theorem head?_decimalDigits {value : Nat} (positive : 0 < value) :
    (decimalDigits value).head? ≠ some '0' := by
  unfold decimalDigits
  induction value using Nat.base_induction 10 (by decide) with
  | single value small =>
      rw [Nat.toDigits_of_lt_base small, List.head?_cons, ne_eq, Option.some.injEq,
        Nat.digitChar_eq_zero]
      omega
  | digit leading last small leadingPositive ih =>
      cases digits : Nat.toDigits 10 leading with
      | nil => exact absurd digits Nat.toDigits_ne_nil
      | cons first rest =>
          rw [digits] at ih
          rw [← Nat.toDigits_append_toDigits (by decide) leadingPositive small, digits]
          exact ih leadingPositive

/-! ### A number without the sign of a zero -/

namespace Number

/-- The number, a zero without its sign. -/
def plain (number : Number) : Number :=
  if number.equals (.zero false) then .zero false else number

theorem plain_cases (number : Number) :
    number.plain = number ∨ ∃ negative, number = .zero negative ∧ number.plain = .zero false := by
  unfold plain
  by_cases zero : number.equals (.zero false) = true
  · rw [if_pos zero]
    rcases eq_or_zeros_of_equals zero with same | ⟨negative, _, same, -⟩
    · exact .inl same.symm
    · exact .inr ⟨negative, same, rfl⟩
  · exact .inl (if_neg zero)

theorem plain_zero (negative : Bool) : (zero negative).plain = zero false := by
  have isZero : (zero negative).equals (zero false) = true := by
    cases negative <;> rfl
  exact if_pos isZero

theorem plain_eq_of_equals {left right : Number} (same : left.equals right = true) :
    left.plain = right.plain := by
  rcases eq_or_zeros_of_equals same with rfl | ⟨leftSign, rightSign, rfl, rfl⟩
  · rfl
  · rw [plain_zero, plain_zero]

theorem equals_self_of_isFinite {number : Number} (finite : number.isFinite = true) :
    number.equals number = true := by
  cases number with
  | nan => cases finite
  | infinity => cases finite
  | finite negative magnitude => simp [equals]

theorem equals_plain {number : Number} (finite : number.isFinite = true) :
    number.equals number.plain = true := by
  rcases number.plain_cases with same | ⟨negative, rfl, plain⟩
  · rw [same]
    exact equals_self_of_isFinite finite
  · rw [plain]
    cases negative <;> rfl

/-! ### What an integer denotes -/

theorem isFinite_of_integer? {number : Number} {value : Int}
    (counts : number.integer? = some value) : number.isFinite = true := by
  cases number with
  | finite negative magnitude => rfl
  | nan => cases counts
  | infinity => cases counts

theorem plain_finite {magnitude : Magnitude} (positive : magnitude.units ≠ 0) (negative : Bool) :
    (finite negative magnitude).plain = finite negative magnitude := by
  have apart : ¬ (finite negative magnitude).equals (zero false) = true := by
    simp [equals, zero, positive]
  exact if_neg apart

theorem ofRatio_zero (negative : Bool) : ofRatio negative 0 1 = zero negative := by
  have read : Magnitude.ofRatio? 0 1 = some ⟨0, representable_zero⟩ :=
    Magnitude.ofRatio?_ones (Nat.zero_mul unitsPerOne)
  rw [ofRatio, read]
  rfl

/-- A numeral without a fraction and an exponent denotes its integer. -/
theorem toNumber_integer (negative : Bool) (ones : Nat) :
    (Decimal.mk negative ones 0).toNumber = ofRatio negative ones 1 := by
  unfold Decimal.toNumber
  dsimp only
  by_cases zero : ones = 0
  · rw [if_pos zero, zero, ofRatio_zero]
  · rw [if_neg zero]
    change (if farPower < 0 then _ else ofRatio negative (ones * Nat.pow 10 0) 1) = _
    rw [if_neg (Nat.not_lt_zero farPower)]
    exact congrArg (ofRatio negative · 1) (Nat.mul_one ones)

/-- Only a sign that shows is a sign of the integer. -/
theorem ofInt_signed (negative : Bool) (ones : Nat) :
    ofInt (if negative then -(ones : Int) else ones) =
      ofRatio (negative && decide (0 < ones)) ones 1 := by
  cases negative with
  | false =>
      have notNegative : ¬ (ones : Int) < 0 := by omega
      unfold ofInt
      simp only [Bool.false_eq_true, ↓reduceIte, Int.natAbs_natCast, notNegative, decide_false,
        Bool.false_and]
  | true =>
      have sign : (-(ones : Int) < 0) = (0 < ones) := by
        rw [eq_iff_iff]
        omega
      unfold ofInt
      simp only [↓reduceIte, Int.natAbs_neg, Int.natAbs_natCast, sign, Bool.true_and]

/-- A number that counts as an integer is the number of that integer, but for the sign of a
zero. -/
theorem ofInt_of_integer? {number : Number} {value : Int} (counts : number.integer? = some value) :
    ofInt value = number.plain := by
  cases number with
  | nan => cases counts
  | infinity => cases counts
  | finite negative magnitude =>
      rw [integer?] at counts
      by_cases whole : magnitude.units % unitsPerOne = 0
      · rw [if_pos whole] at counts
        have counted : magnitude.units / unitsPerOne * unitsPerOne = magnitude.units :=
          Nat.div_mul_cancel (Nat.dvd_of_mod_eq_zero whole)
        rw [← Option.some.inj counts, ofInt_signed, ofRatio, Magnitude.ofRatio?_ones counted]
        by_cases zero : magnitude.units = 0
        · have isZero : magnitude = ⟨0, representable_zero⟩ := Magnitude.eq_of_units zero
          have unsigned : decide (0 < magnitude.units / unitsPerOne) = false := by
            rw [zero, Nat.zero_div]
            rfl
          rw [unsigned, Bool.and_false, isZero]
          exact (plain_zero negative).symm
        · have positive : decide (0 < magnitude.units / unitsPerOne) = true := by
            rw [decide_eq_true_eq, Nat.pos_iff_ne_zero]
            intro noOnes
            rw [noOnes, Nat.zero_mul] at counted
            exact zero counted.symm
          rw [positive, Bool.and_true, plain_finite zero]
      · rw [if_neg whole] at counts
        cases counts

end Number

end DesignTokens
