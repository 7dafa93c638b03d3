/-
The number of a numeral.

What a decimal numeral denotes depends on its value alone, not on how its digits
are divided between the coefficient and the power of ten. The powers of ten that
are settled without being computed make no exception, so a numeral denotes a
finite number exactly when its value is below the bound past which rounding
overflows.
-/
import Mathlib.Algebra.Order.Field.Rat
import Mathlib.Tactic.NormNum
import DesignTokens.Number.Decimal
import DesignTokens.Number.Shortest
import DesignTokens.Proofs.Number.Overflow

namespace DesignTokens

/-! ### Decimals -/

namespace Magnitude

variable {coefficient power : Nat}

theorem overflowBound_le_pow (far : farPower < power) : overflowBound ≤ Nat.pow 10 power := by
  have reached : overflowBound ≤ Nat.pow 10 farPower := by decide +kernel
  have grows {low high : Nat} (within : low ≤ high) : Nat.pow 10 low ≤ Nat.pow 10 high :=
    Nat.pow_le_pow_right (by decide) within
  exact Nat.le_trans reached (grows (Nat.le_of_lt far))

theorem ofDecimal?_of_large (nonzero : coefficient ≠ 0) (far : farPower < power) :
    ofDecimal? coefficient (.ofNat power) = none := by
  have large : overflowBound ≤ coefficient * Nat.pow 10 power :=
    Nat.le_trans (overflowBound_le_pow far)
      (Nat.le_mul_of_pos_left _ (Nat.pos_of_ne_zero nonzero))
  rw [ofDecimal?, ← Option.not_isSome_iff_eq_none, isSome_ofRatio?_iff Nat.one_pos, Nat.one_mul]
  exact Nat.not_lt.mpr large

theorem ofDecimal?_of_small (far : farPower + coefficient.log2 < power) :
    ofDecimal? coefficient (.negSucc power) = some ⟨0, representable_zero⟩ := by
  have bits : coefficient < 2 ^ (coefficient.log2 + 1) := Nat.lt_log2_self
  have units : 2 * unitsPerOne ≤ 10 ^ farPower := by decide +kernel
  have small : 2 * (coefficient * unitsPerOne) < Nat.pow 10 (power + 1) :=
    calc 2 * (coefficient * unitsPerOne) = coefficient * (2 * unitsPerOne) := by ring
      _ < 2 ^ (coefficient.log2 + 1) * (2 * unitsPerOne) :=
          Nat.mul_lt_mul_of_pos_right bits (Nat.mul_pos Nat.two_pos unitsPerOne_pos)
      _ ≤ 10 ^ (coefficient.log2 + 1) * 10 ^ farPower :=
          Nat.mul_le_mul (Nat.pow_le_pow_left (by decide) _) units
      _ = 10 ^ (coefficient.log2 + 1 + farPower) := (Nat.pow_add 10 _ _).symm
      _ ≤ 10 ^ (power + 1) := Nat.pow_le_pow_right (by decide) (by omega)
  exact (ofRatio?_eq_some_iff (Nat.pow_pos (by decide))).mpr (roundedUnits_of_small small)

theorem ofDecimal?_zero (exponent : Int) :
    ofDecimal? 0 exponent = some ⟨0, representable_zero⟩ := by
  cases exponent with
  | ofNat power =>
      refine (ofRatio?_eq_some_iff Nat.one_pos).mpr (roundedUnits_of_small ?_)
      rw [Nat.zero_mul, Nat.zero_mul]
      decide
  | negSucc power =>
      have positive : 0 < Nat.pow 10 (power + 1) := Nat.pow_pos (by decide)
      refine (ofRatio?_eq_some_iff positive).mpr (roundedUnits_of_small ?_)
      rw [Nat.zero_mul]
      exact positive

/-- A decimal is read as the ratio that is its value. -/
theorem exists_ofDecimal?_eq (coefficient : Nat) (exponent : Int) :
    ∃ numerator denominator : Nat, 0 < denominator ∧
      (numerator : ℚ) = coefficient * 10 ^ exponent * denominator ∧
      ofDecimal? coefficient exponent = ofRatio? numerator denominator := by
  cases exponent with
  | ofNat power =>
      refine ⟨coefficient * Nat.pow 10 power, 1, Nat.one_pos, ?_, rfl⟩
      have numerator : ((Nat.pow 10 power : Nat) : ℚ) = 10 ^ power := Nat.cast_pow 10 power
      rw [Nat.cast_mul, numerator, Int.ofNat_eq_natCast, zpow_natCast, Nat.cast_one, mul_one]
  | negSucc power =>
      refine ⟨coefficient, Nat.pow 10 (power + 1), Nat.pow_pos (by decide), ?_, rfl⟩
      have nonzero : (10 : ℚ) ^ (power + 1) ≠ 0 := by positivity
      have denominator : ((Nat.pow 10 (power + 1) : Nat) : ℚ) = 10 ^ (power + 1) :=
        Nat.cast_pow 10 (power + 1)
      rw [denominator, zpow_negSucc, inv_mul_cancel_right₀ nonzero]

/-- Decimals of one value are read alike. -/
theorem ofDecimal?_congr {other : Nat} {exponent otherExponent : Int}
    (same : (coefficient : ℚ) * 10 ^ exponent = other * 10 ^ otherExponent) :
    ofDecimal? coefficient exponent = ofDecimal? other otherExponent := by
  obtain ⟨numerator, denominator, positive, value, read⟩ :=
    exists_ofDecimal?_eq coefficient exponent
  obtain ⟨otherNumerator, otherDenominator, otherPositive, otherValue, otherRead⟩ :=
    exists_ofDecimal?_eq other otherExponent
  rw [read, otherRead]
  apply ofRatio?_congr positive otherPositive
  have crossed : (numerator : ℚ) * otherDenominator = otherNumerator * denominator := by
    rw [value, otherValue, same]
    ring
  exact_mod_cast crossed

theorem isSome_ofDecimal?_iff (coefficient : Nat) (exponent : Int) :
    (ofDecimal? coefficient exponent).isSome = true ↔
      (coefficient : ℚ) * 10 ^ exponent < overflowBound := by
  obtain ⟨numerator, denominator, positive, value, read⟩ :=
    exists_ofDecimal?_eq coefficient exponent
  have scale : (0 : ℚ) < denominator := Nat.cast_pos.mpr positive
  rw [read, isSome_ofRatio?_iff positive, ← mul_lt_mul_iff_left₀ scale, ← value,
    mul_comm (overflowBound : ℚ)]
  exact_mod_cast Iff.rfl

end Magnitude

/-! ### Numerals -/

namespace Decimal

/-- The value of a numeral without its sign. -/
def magnitude (decimal : Decimal) : ℚ := decimal.coefficient * 10 ^ decimal.exponent

/-- The powers of ten that are settled without being computed make no difference. -/
theorem toNumber_eq (decimal : Decimal) :
    decimal.toNumber = (Magnitude.ofDecimal? decimal.coefficient decimal.exponent).elim
      (.infinity decimal.negative) (.finite decimal.negative) := by
  obtain ⟨negative, coefficient, exponent⟩ := decimal
  have computed (numerator denominator : Nat) : Number.ofRatio negative numerator denominator =
      (Magnitude.ofRatio? numerator denominator).elim (.infinity negative) (.finite negative) := by
    rw [Number.ofRatio]
    cases Magnitude.ofRatio? numerator denominator <;> rfl
  unfold toNumber
  dsimp only
  by_cases zero : coefficient = 0
  · rw [if_pos zero, zero, Magnitude.ofDecimal?_zero]
    rfl
  · rw [if_neg zero]
    cases exponent with
    | ofNat power =>
        dsimp only
        by_cases far : farPower < power
        · rw [if_pos far, Magnitude.ofDecimal?_of_large zero far]
          rfl
        · rw [if_neg far]
          exact computed _ _
    | negSucc power =>
        dsimp only
        by_cases far : farPower + coefficient.log2 < power
        · rw [if_pos far, Magnitude.ofDecimal?_of_small far]
          rfl
        · rw [if_neg far]
          exact computed _ _

theorem isFinite_toNumber_iff (decimal : Decimal) :
    decimal.toNumber.isFinite = true ↔ decimal.magnitude < overflowBound := by
  rw [toNumber_eq, magnitude, ← Magnitude.isSome_ofDecimal?_iff]
  cases Magnitude.ofDecimal? decimal.coefficient decimal.exponent <;> rfl

end Decimal

/-! ### Texts -/

theorem takeDigits_append {digits rest : List Char} (digital : ∀ c ∈ digits, c.isDigit = true)
    (stops : ∀ c ∈ rest.head?, c.isDigit = false) :
    takeDigits (digits ++ rest) = (digits, rest) := by
  unfold takeDigits
  rw [List.takeWhile_append_of_pos digital, List.dropWhile_append_of_pos digital]
  cases rest with
  | nil => rw [List.takeWhile_nil, List.dropWhile_nil, List.append_nil]
  | cons c rest =>
      have notDigit : c.isDigit = false := stops c rfl
      rw [List.takeWhile_cons, List.dropWhile_cons, notDigit]
      simp

namespace Number

variable {text : List Char}

/-- The text after its sign in lowercase, as names are compared. -/
def nameIn (text : List Char) : String := String.ofList ((takeSign text).2.map Char.toLower)

/-- The names of what is not finite. -/
def unboundedNames : List String := ["nan", "inf", "infinity"]

/-- A text that a length is read from, but not as a finite number: the name of a NaN or of an
infinity, or a numeral that rounds past the largest number, each with or without a sign. -/
inductive Unbounded (text : List Char) : Prop
  | name (among : nameIn text ∈ unboundedNames)
  | numeral {decimal : Decimal}
      (reads : readUnsigned? (takeSign text).1 (takeSign text).2 = some decimal)
      (large : overflowBound ≤ decimal.magnitude)

theorem ofText?_eq (text : List Char) :
    ofText? text =
      if nameIn text = "nan" then some .nan
      else if nameIn text = "inf" || nameIn text = "infinity" then
        some (.infinity (takeSign text).1)
      else (readUnsigned? (takeSign text).1 (takeSign text).2).map Decimal.toNumber := rfl

theorem exists_ofText?_of_name (among : nameIn text ∈ unboundedNames) :
    ∃ number, ofText? text = some number ∧ number.isFinite = false := by
  rw [ofText?_eq]
  by_cases isNan : nameIn text = "nan"
  · exact ⟨.nan, if_pos isNan, rfl⟩
  · have infinite : (nameIn text = "inf" || nameIn text = "infinity") = true := by
      simpa [unboundedNames, isNan] using among
    exact ⟨.infinity (takeSign text).1, by rw [if_neg isNan, if_pos infinite], rfl⟩

theorem ofText?_of_not_name (other : nameIn text ∉ unboundedNames) :
    ofText? text =
      (readUnsigned? (takeSign text).1 (takeSign text).2).map Decimal.toNumber := by
  simp only [unboundedNames, List.mem_cons, List.not_mem_nil, or_false, not_or] at other
  have finite : ¬(nameIn text = "inf" || nameIn text = "infinity") = true := by
    simpa using other.2
  rw [ofText?_eq, if_neg other.1, if_neg finite]

theorem unbounded_iff :
    Unbounded text ↔ ∃ number, ofText? text = some number ∧ number.isFinite = false := by
  have large (decimal : Decimal) :
      decimal.toNumber.isFinite = false ↔ overflowBound ≤ decimal.magnitude := by
    rw [← not_lt, ← decimal.isFinite_toNumber_iff, Bool.not_eq_true]
  by_cases named : nameIn text ∈ unboundedNames
  · exact iff_of_true (.name named) (exists_ofText?_of_name named)
  · rw [ofText?_of_not_name named]
    constructor
    · intro unbounded
      cases unbounded with
      | name among => exact absurd among named
      | numeral reads tooLarge =>
          rw [reads]
          exact ⟨_, rfl, (large _).mpr tooLarge⟩
    · rintro ⟨number, reads, unfinite⟩
      obtain ⟨decimal, numeral, rfl⟩ := Option.map_eq_some_iff.mp reads
      exact .numeral numeral ((large decimal).mp unfinite)

end Number

end DesignTokens
