/-
Rounding to the nearest magnitude.

The result depends on the value of a ratio only, not on its terms. Magnitudes lie
so close together that a ratio which differs from one of them by at most one part
in `nearness` is rounded to it. This holds at both ends of a run of magnitudes
with the same last place: in front of a power of two the places are half as wide,
but there the ratio is also nearer.
-/
import Mathlib.Tactic.Ring
import DesignTokens.Number.Basic

namespace DesignTokens

/-! ### The nearest whole number -/

section Whole

variable {numerator denominator : Nat}

theorem quotient_le_roundHalfEven (numerator denominator : Nat) :
    numerator / denominator ≤ roundHalfEven numerator denominator := by
  unfold roundHalfEven
  dsimp only
  split
  · exact Nat.le_refl _
  · split
    · exact Nat.le_add_right _ _
    · exact Nat.le_succ _

theorem roundHalfEven_mul_right {factor : Nat} (positive : 0 < factor) :
    roundHalfEven (numerator * factor) (denominator * factor) =
      roundHalfEven numerator denominator := by
  have below : 2 * (numerator % denominator * factor) < denominator * factor ↔
      2 * (numerator % denominator) < denominator := by
    rw [← Nat.mul_assoc, Nat.mul_lt_mul_right positive]
  have middle : 2 * (numerator % denominator * factor) = denominator * factor ↔
      2 * (numerator % denominator) = denominator := by
    rw [← Nat.mul_assoc, Nat.mul_left_inj positive.ne']
  unfold roundHalfEven
  rw [Nat.mul_div_mul_right _ _ positive, Nat.mul_mod_mul_right]
  simp only [below, middle]

/-- A ratio that is less than one half away from a whole number. -/
theorem roundHalfEven_of_near {whole : Nat}
    (above : 2 * (whole * denominator) < 2 * numerator + denominator)
    (below : 2 * numerator < 2 * (whole * denominator) + denominator) :
    roundHalfEven numerator denominator = whole := by
  have parts := Nat.div_add_mod numerator denominator
  have small : numerator % denominator < denominator := Nat.mod_lt numerator (by omega)
  rw [Nat.mul_comm whole] at above below
  unfold roundHalfEven
  generalize numerator / denominator = quotient at parts ⊢
  generalize numerator % denominator = remainder at parts small ⊢
  dsimp only
  rcases Nat.lt_trichotomy quotient whole with less | rfl | more
  · have scaled := Nat.mul_le_mul_left denominator less
    rw [Nat.mul_succ] at scaled
    have next : quotient + 1 = whole := by
      by_contra other
      have further := Nat.mul_le_mul_left denominator (show quotient + 2 ≤ whole by omega)
      rw [Nat.mul_add] at further
      omega
    rw [if_neg (by omega), if_neg (by omega), next]
  · rw [if_pos (by omega)]
  · have scaled := Nat.mul_le_mul_left denominator more
    rw [Nat.mul_succ] at scaled
    omega

end Whole

/-! ### The last place -/

theorem lastPlace_le_of_lt {units place : Nat} (below : units < Nat.pow 2 (place + 53)) :
    lastPlace units ≤ place := by
  unfold lastPlace
  by_cases zero : units = 0
  · rw [zero, Nat.log2_zero]
    omega
  · have := (Nat.log2_lt zero).mpr below
    omega

theorem le_lastPlace_of_ge {units place : Nat} (above : Nat.pow 2 (place + 52) ≤ units) :
    place ≤ lastPlace units := by
  have nonzero : units ≠ 0 := (Nat.lt_of_lt_of_le (Nat.two_pow_pos _) above).ne'
  have := (Nat.le_log2 nonzero).mpr above
  unfold lastPlace
  omega

theorem pow_lastPlace_le {units : Nat} (positive : 0 < lastPlace units) :
    Nat.pow 2 (lastPlace units + 52) ≤ units := by
  have nonzero : units ≠ 0 := by
    rintro rfl
    rw [lastPlace, Nat.log2_zero] at positive
    omega
  have exact : lastPlace units + 52 = units.log2 := by
    unfold lastPlace at positive ⊢
    omega
  rw [exact]
  exact Nat.log2_self_le nonzero

theorem pow_bits (place : Nat) : Nat.pow 2 (place + 53) = 9007199254740992 * Nat.pow 2 place :=
  Nat.pow_add' 2 place 53

/-- The power of two above a count of 53 significant bits is at least a last place away. -/
theorem add_pow_lastPlace_le {units : Nat} (fits : Representable units) :
    units + Nat.pow 2 (lastPlace units) ≤ Nat.pow 2 (lastPlace units + 53) := by
  have below := lt_pow_lastPlace units
  obtain ⟨significand, exact⟩ : Nat.pow 2 (lastPlace units) ∣ units := fits.2
  rw [pow_bits] at below ⊢
  generalize Nat.pow 2 (lastPlace units) = step at exact below ⊢
  rw [exact, Nat.mul_comm step] at below ⊢
  rw [← Nat.succ_mul]
  exact Nat.mul_le_mul_right step (Nat.lt_of_mul_lt_mul_right below)

/-! ### The nearest count of units -/

section Units

variable {numerator denominator units : Nat}

theorem roundedUnits_mul_right {factor : Nat} (positive : 0 < factor) :
    roundedUnits (numerator * factor) (denominator * factor) =
      roundedUnits numerator denominator := by
  unfold roundedUnits
  rw [Nat.mul_div_mul_right _ _ positive]
  dsimp only
  rw [Nat.mul_right_comm, roundHalfEven_mul_right positive]

/-- Two times ten to the sixteenth. -/
def nearness : Nat := 20000000000000000

/-- The ratio differs from the count of units by at most one part in `nearness` of the units. -/
structure Near (units numerator denominator : Nat) : Prop where
  above : nearness * (units * denominator) ≤ nearness * numerator + units * denominator
  below : nearness * numerator ≤ nearness * (units * denominator) + units * denominator

theorem Near.lastPlace_le (near : Near units numerator denominator) (fits : Representable units)
    (positive : 0 < denominator) : lastPlace (numerator / denominator) ≤ lastPlace units := by
  apply lastPlace_le_of_lt
  rw [Nat.div_lt_iff_lt_mul positive]
  have room := Nat.mul_le_mul_right denominator (add_pow_lastPlace_le fits)
  have step : 0 < Nat.pow 2 (lastPlace units) * denominator :=
    Nat.mul_pos (Nat.two_pow_pos _) positive
  have below := near.below
  rw [nearness] at below
  rw [Nat.add_mul] at room
  rw [pow_bits, Nat.mul_assoc] at room ⊢
  generalize Nat.pow 2 (lastPlace units) * denominator = step at *
  generalize units * denominator = scaled at *
  omega

/-- Twice a count of units is less than `nearness` times the last place of a near ratio. -/
theorem Near.lt_places (near : Near units numerator denominator) (positive : 0 < denominator) :
    2 * (units * denominator) <
      nearness * (denominator * Nat.pow 2 (lastPlace (numerator / denominator))) := by
  have small := lt_pow_lastPlace (numerator / denominator)
  have next := Nat.lt_mul_div_succ numerator positive
  have above := near.above
  rw [pow_bits] at small
  generalize Nat.pow 2 (lastPlace (numerator / denominator)) = step at small ⊢
  have room := Nat.mul_le_mul_left denominator (Nat.succ_le_of_lt small)
  rw [Nat.mul_left_comm] at room
  rw [nearness] at above ⊢
  generalize numerator / denominator = quotient at *
  generalize denominator * step = place at *
  generalize units * denominator = scaled at *
  generalize denominator * (quotient + 1) = bound at *
  omega

theorem roundedUnits_of_near (near : Near units numerator denominator)
    (fits : Representable units) (positive : 0 < denominator) :
    roundedUnits numerator denominator = units := by
  have coarser : Nat.pow 2 (lastPlace (numerator / denominator)) ∣ units :=
    Nat.dvd_trans (Nat.pow_dvd_pow 2 (near.lastPlace_le fits positive)) fits.2
  have places := near.lt_places positive
  obtain ⟨above, below⟩ := near
  unfold roundedUnits
  dsimp only
  generalize Nat.pow 2 (lastPlace (numerator / denominator)) = step at coarser places ⊢
  obtain ⟨significand, rfl⟩ := coarser
  have total : significand * (denominator * step) = step * significand * denominator := by ring
  rw [nearness] at above below places
  have rounded : roundHalfEven numerator (denominator * step) = significand := by
    apply roundHalfEven_of_near
    · rw [total]
      omega
    · rw [total]
      omega
  rw [rounded, Nat.mul_comm]

theorem Near.refl (units : Nat) : Near units units 1 where
  above := by
    rw [Nat.mul_one]
    exact Nat.le_add_right _ _
  below := by
    rw [Nat.mul_one]
    exact Nat.le_add_right _ _

theorem roundedUnits_of_representable (fits : Representable units) :
    roundedUnits units 1 = units :=
  roundedUnits_of_near (Near.refl units) fits Nat.one_pos

theorem roundedUnits_of_small (small : 2 * numerator < denominator) :
    roundedUnits numerator denominator = 0 := by
  have quotient : numerator / denominator = 0 := Nat.div_eq_of_lt (by omega)
  have rounded : roundHalfEven numerator (denominator * 1) = 0 :=
    roundHalfEven_of_near (by omega) (by omega)
  unfold roundedUnits
  rw [quotient]
  exact (congrArg (· * 1) rounded)

end Units

/-! ### The nearest magnitude -/

namespace Magnitude

variable {magnitude : Magnitude} {numerator denominator : Nat}

theorem eq_of_units {one other : Magnitude} (same : one.units = other.units) : one = other := by
  cases one
  cases other
  cases same
  rfl

theorem ofRatio?_eq_some_iff (positive : 0 < denominator) :
    ofRatio? numerator denominator = some magnitude ↔
      roundedUnits (numerator * unitsPerOne) denominator = magnitude.units := by
  unfold ofRatio?
  rw [dif_pos positive]
  dsimp only
  constructor
  · intro read
    split at read
    · cases read
      rfl
    · cases read
  · intro rounded
    have fits : roundedUnits (numerator * unitsPerOne) denominator < unitLimit := by
      rw [rounded]
      exact magnitude.representable.1
    rw [dif_pos fits]
    exact congrArg some (eq_of_units rounded)

theorem ofRatio?_mul_right {factor : Nat} (scaled : 0 < factor) (positive : 0 < denominator) :
    ofRatio? (numerator * factor) (denominator * factor) = ofRatio? numerator denominator := by
  refine Option.ext fun magnitude => ?_
  rw [ofRatio?_eq_some_iff (Nat.mul_pos positive scaled), ofRatio?_eq_some_iff positive,
    Nat.mul_right_comm, roundedUnits_mul_right scaled]

/-- Ratios of one value have one magnitude. -/
theorem ofRatio?_congr {otherNumerator otherDenominator : Nat} (positive : 0 < denominator)
    (otherPositive : 0 < otherDenominator)
    (same : numerator * otherDenominator = otherNumerator * denominator) :
    ofRatio? numerator denominator = ofRatio? otherNumerator otherDenominator := by
  rw [← ofRatio?_mul_right otherPositive positive, same, Nat.mul_comm denominator,
    ofRatio?_mul_right positive otherPositive]

theorem ofRatio?_of_near (near : Near magnitude.units (numerator * unitsPerOne) denominator)
    (positive : 0 < denominator) : ofRatio? numerator denominator = some magnitude :=
  (ofRatio?_eq_some_iff positive).mpr
    (roundedUnits_of_near near magnitude.representable positive)

/-- A count of ones that is a magnitude is read as this magnitude. -/
theorem ofRatio?_ones {ones : Nat} (counted : ones * unitsPerOne = magnitude.units) :
    ofRatio? ones 1 = some magnitude := by
  rw [ofRatio?_eq_some_iff Nat.one_pos, counted]
  exact roundedUnits_of_representable magnitude.representable

end Magnitude

end DesignTokens
