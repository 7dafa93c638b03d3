/-
Where rounding goes past the largest number.

The largest number has a significand of 53 ones, which is odd, so a tie above it
goes up. Ratios from the middle between it and the next power of two on have no
magnitude, and all smaller ones have.
-/
import DesignTokens.Proofs.Number.Rounding

namespace DesignTokens

/-! ### Rounding against a bound -/

/-- A tie above an odd number leaves it. -/
theorem roundHalfEven_le_iff_of_odd {numerator denominator bound : Nat}
    (positive : 0 < denominator) (odd : bound % 2 = 1) :
    roundHalfEven numerator denominator ≤ bound ↔
      2 * numerator < denominator * (2 * bound + 1) := by
  have parts := Nat.div_add_mod numerator denominator
  have small := Nat.mod_lt numerator positive
  have middle : denominator * (2 * bound + 1) = 2 * (denominator * bound) + denominator := by
    ring
  unfold roundHalfEven
  rw [middle]
  generalize numerator / denominator = quotient at parts ⊢
  generalize numerator % denominator = remainder at parts small ⊢
  dsimp only
  rcases Nat.lt_trichotomy quotient bound with below | rfl | above
  · have scaled := Nat.mul_le_mul_left denominator below
    rw [Nat.mul_succ] at scaled
    split
    · omega
    · split <;> omega
  · split
    · omega
    · split <;> omega
  · have scaled := Nat.mul_le_mul_left denominator above
    rw [Nat.mul_succ] at scaled
    split
    · omega
    · split <;> omega

/-! ### Units rounded too far -/

/-- The middle between a power of two and the last number of 53 significant bits below it. -/
def middleBelow (place : Nat) : Nat := (Nat.pow 2 54 - 1) * Nat.pow 2 place

section Rounded

variable {numerator denominator : Nat}

theorem roundedUnits_le (positive : 0 < denominator) :
    roundedUnits numerator denominator ≤
      Nat.pow 2 (lastPlace (numerator / denominator) + 53) := by
  have small := lt_pow_lastPlace (numerator / denominator)
  unfold roundedUnits
  dsimp only
  generalize lastPlace (numerator / denominator) = last at small ⊢
  have split : Nat.pow 2 (last + 53) = Nat.pow 2 53 * Nat.pow 2 last :=
    Nat.pow_add' 2 last 53
  rw [split] at small ⊢
  refine Nat.mul_le_mul_right _ (roundHalfEven_le _ _ _ ?_)
  rw [Nat.mul_assoc, Nat.mul_comm (Nat.pow 2 last), Nat.mul_comm denominator]
  exact (Nat.div_lt_iff_lt_mul positive).mp small

theorem roundedUnits_ge (large : 0 < lastPlace (numerator / denominator)) :
    Nat.pow 2 (lastPlace (numerator / denominator) + 52) ≤
      roundedUnits numerator denominator := by
  have below := pow_lastPlace_le large
  unfold roundedUnits
  dsimp only
  generalize lastPlace (numerator / denominator) = last at below ⊢
  have split : Nat.pow 2 (last + 52) = Nat.pow 2 52 * Nat.pow 2 last :=
    Nat.pow_add' 2 last 52
  rw [split] at below ⊢
  refine Nat.mul_le_mul_right _ (Nat.le_trans ?_ (quotient_le_roundHalfEven _ _))
  rw [← Nat.div_div_eq_div_mul]
  exact (Nat.le_div_iff_mul_le (Nat.two_pow_pos last)).mpr below

/-- The same where the last place is the one of the numbers just below the power. -/
theorem roundedUnits_lt_iff_of_lastPlace {place : Nat} (positive : 0 < denominator)
    (last : lastPlace (numerator / denominator) = place + 1) :
    roundedUnits numerator denominator < Nat.pow 2 (place + 54) ↔
      numerator < denominator * middleBelow place := by
  have step : 0 < Nat.pow 2 (place + 1) := Nat.two_pow_pos _
  have limit : Nat.pow 2 (place + 54) = (Nat.pow 2 53 - 1 + 1) * Nat.pow 2 (place + 1) :=
    Nat.pow_add' 2 (place + 1) 53
  have middle : denominator * Nat.pow 2 (place + 1) * (2 * (Nat.pow 2 53 - 1) + 1) =
      2 * (denominator * middleBelow place) := by
    have twice : Nat.pow 2 (place + 1) = 2 * Nat.pow 2 place := Nat.pow_succ'
    have odd : 2 * (Nat.pow 2 53 - 1) + 1 = Nat.pow 2 54 - 1 := rfl
    rw [middleBelow, twice, odd]
    ring
  unfold roundedUnits
  rw [last, limit, Nat.mul_lt_mul_right step, Nat.lt_add_one_iff,
    roundHalfEven_le_iff_of_odd (Nat.mul_pos positive step) rfl, middle,
    Nat.mul_lt_mul_left (by decide)]

/-- The last number below a power of two is odd in its last place, and the ratios from the middle
between the two on are rounded to the power or past it. -/
theorem roundedUnits_lt_iff (place : Nat) (positive : 0 < denominator) :
    roundedUnits numerator denominator < Nat.pow 2 (place + 54) ↔
      numerator < denominator * middleBelow place := by
  rcases Nat.lt_or_ge (numerator / denominator) (Nat.pow 2 (place + 53)) with below | above
  · have last := lastPlace_le_of_lt below
    have rounded : roundedUnits numerator denominator < Nat.pow 2 (place + 54) :=
      Nat.lt_of_le_of_lt (roundedUnits_le positive)
        (Nat.pow_lt_pow_right (by decide) (by omega))
    refine iff_of_true rounded ?_
    calc numerator < Nat.pow 2 (place + 53) * denominator :=
          (Nat.div_lt_iff_lt_mul positive).mp below
      _ = denominator * (Nat.pow 2 53 * Nat.pow 2 place) := by
          rw [Nat.mul_comm]
          exact congrArg (denominator * ·) (Nat.pow_add' 2 place 53)
      _ ≤ denominator * middleBelow place :=
          Nat.mul_le_mul_left _ (Nat.mul_le_mul_right _ (by decide))
  · rcases Nat.lt_or_ge (numerator / denominator) (Nat.pow 2 (place + 54)) with inside | beyond
    · have last : lastPlace (numerator / denominator) = place + 1 :=
        Nat.le_antisymm (lastPlace_le_of_lt inside) (le_lastPlace_of_ge above)
      exact roundedUnits_lt_iff_of_lastPlace positive last
    · have last : place + 2 ≤ lastPlace (numerator / denominator) := le_lastPlace_of_ge beyond
      refine iff_of_false (Nat.not_lt.mpr ?_) (Nat.not_lt.mpr ?_)
      · exact Nat.le_trans (Nat.pow_le_pow_right (by decide) (by omega))
          (roundedUnits_ge (by omega))
      · calc denominator * middleBelow place
            ≤ denominator * (Nat.pow 2 54 * Nat.pow 2 place) :=
              Nat.mul_le_mul_left _ (Nat.mul_le_mul_right _ (by decide))
          _ = denominator * Nat.pow 2 (place + 54) :=
              congrArg (denominator * ·) (Nat.pow_add' 2 place 54).symm
          _ ≤ denominator * (numerator / denominator) := Nat.mul_le_mul_left _ beyond
          _ ≤ numerator := Nat.mul_div_le numerator denominator

end Rounded

/-! ### Numbers -/

/-- The middle between the largest finite number and the power of two beyond it. -/
def overflowBound : Nat := middleBelow 970

theorem unitLimit_eq : unitLimit = Nat.pow 2 (2044 + 54) := by decide +kernel

/-- The bound in units. -/
theorem overflowBound_units : middleBelow 2044 = overflowBound * unitsPerOne := by
  decide +kernel

theorem Magnitude.isSome_ofRatio?_iff {numerator denominator : Nat} (positive : 0 < denominator) :
    (ofRatio? numerator denominator).isSome = true ↔ numerator < denominator * overflowBound := by
  have fits : (ofRatio? numerator denominator).isSome = true ↔
      roundedUnits (numerator * unitsPerOne) denominator < unitLimit := by
    unfold ofRatio?
    rw [dif_pos positive]
    dsimp only
    split
    · exact iff_of_true rfl ‹_›
    · exact iff_of_false Bool.false_ne_true ‹_›
  rw [fits, unitLimit_eq, roundedUnits_lt_iff 2044 positive, overflowBound_units, ← Nat.mul_assoc,
    Nat.mul_lt_mul_right unitsPerOne_pos]

end DesignTokens
