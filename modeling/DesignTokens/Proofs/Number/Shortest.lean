/-
The shortest decimal reads back.

A grid of decimals reads back a magnitude when one of the two neighbours of its
exact value does. On the grid of seventeen digits a place is less than ten to the
minus sixteenth of the magnitude, and the nearer neighbour is half a place away at
most; that is near enough to be rounded to the magnitude. So the search for the
shortest decimal always ends in a decimal that reads back.
-/
import DesignTokens.Proofs.Number.Numeral

namespace DesignTokens

/-! ### The nearer neighbour -/

namespace TieRule

variable {tie : TieRule} {readsBack : Nat → Bool} {lower remainder width : Nat}

theorem choose_cases (tie : TieRule) (lower : Nat) :
    tie.choose lower = lower ∨ tie.choose lower = lower + 1 := by
  cases tie with
  | upward => exact .inr rfl
  | evenDigit =>
      rw [choose]
      omega

theorem readsBack_of_neighbour? {chosen : Nat}
    (found : tie.neighbour? readsBack lower remainder width = some chosen) :
    readsBack chosen = true := by
  unfold neighbour? at found
  split at found
  · rename_i lowerReads upperReads
    have either (among : chosen = lower ∨ chosen = lower + 1) : readsBack chosen = true := by
      rcases among with rfl | rfl
      · exact lowerReads
      · exact upperReads
    split at found
    · cases found
      exact either (tie.choose_cases lower)
    · cases found
      apply either
      split
      · exact .inl rfl
      · exact .inr rfl
  · rename_i lowerReads _
    cases found
    exact lowerReads
  · rename_i _ upperReads
    cases found
    exact upperReads
  · cases found

theorem isSome_neighbour? (reads : readsBack lower = true ∨ readsBack (lower + 1) = true) :
    (tie.neighbour? readsBack lower remainder width).isSome = true := by
  unfold neighbour?
  split
  · split <;> rfl
  · rfl
  · rfl
  · rename_i lowerFails upperFails
    rw [lowerFails, upperFails] at reads
    cases reads <;> contradiction

end TieRule

namespace Magnitude

variable {magnitude : Magnitude} {tie : TieRule}

/-! ### Grids of decimals -/

theorem overPower_pos (magnitude : Magnitude) (place : Int) :
    0 < (magnitude.overPower place).2 := by
  cases place with
  | ofNat power =>
      dsimp only [overPower]
      exact Nat.mul_pos unitsPerOne_pos (Nat.pow_pos (by decide))
  | negSucc power =>
      dsimp only [overPower]
      exact unitsPerOne_pos

/-- How a decimal is read, with the exact value of the magnitude on the same grid. -/
theorem exists_ratio (magnitude : Magnitude) (coefficient : Nat) (place : Int) :
    ∃ numerator denominator : Nat, 0 < denominator ∧
      ofDecimal? coefficient place = ofRatio? numerator denominator ∧
      magnitude.units * denominator = (magnitude.overPower place).1 ∧
      numerator * unitsPerOne = coefficient * (magnitude.overPower place).2 := by
  cases place with
  | ofNat power =>
      refine ⟨coefficient * Nat.pow 10 power, 1, Nat.one_pos, rfl, Nat.mul_one _, ?_⟩
      dsimp only [overPower]
      ring
  | negSucc power =>
      refine ⟨coefficient, Nat.pow 10 (power + 1), Nat.pow_pos (by decide), rfl, rfl, ?_⟩
      rw [overPower]

/-- The places of the grid are at most ten to the minus sixteenth of the magnitude. -/
def FineGrid (magnitude : Magnitude) (place : Int) : Prop :=
  Nat.pow 10 16 * (magnitude.overPower place).2 ≤ (magnitude.overPower place).1

/-- A point of a fine grid that is half a place away at most reads back. -/
theorem ofDecimal?_of_fineGrid {place : Int} (fine : magnitude.FineGrid place) {coefficient : Nat}
    (below : 2 * (coefficient * (magnitude.overPower place).2) ≤
      2 * (magnitude.overPower place).1 + (magnitude.overPower place).2)
    (above : 2 * (magnitude.overPower place).1 ≤
      2 * (coefficient * (magnitude.overPower place).2) + (magnitude.overPower place).2) :
    ofDecimal? coefficient place = some magnitude := by
  obtain ⟨numerator, denominator, positive, read, exact, value⟩ :=
    magnitude.exists_ratio coefficient place
  have digits : Nat.pow 10 16 = 10000000000000000 := rfl
  rw [FineGrid, digits] at fine
  rw [read]
  refine ofRatio?_of_near ⟨?_, ?_⟩ positive
  · rw [nearness, exact, value]
    omega
  · rw [nearness, exact, value]
    omega

theorem neighbour_reads_back {place : Int} (fine : magnitude.FineGrid place) :
    ofDecimal? ((magnitude.overPower place).1 / (magnitude.overPower place).2) place =
        some magnitude ∨
      ofDecimal? ((magnitude.overPower place).1 / (magnitude.overPower place).2 + 1) place =
        some magnitude := by
  have parts := Nat.div_add_mod (magnitude.overPower place).1 (magnitude.overPower place).2
  have small := Nat.mod_lt (magnitude.overPower place).1 (magnitude.overPower_pos place)
  have next := Nat.add_mul ((magnitude.overPower place).1 / (magnitude.overPower place).2) 1
    (magnitude.overPower place).2
  rw [Nat.one_mul] at next
  rw [Nat.mul_comm] at parts
  by_cases nearer : 2 * ((magnitude.overPower place).1 % (magnitude.overPower place).2) ≤
      (magnitude.overPower place).2
  · refine .inl (ofDecimal?_of_fineGrid fine ?_ ?_)
    · omega
    · omega
  · refine .inr (ofDecimal?_of_fineGrid fine ?_ ?_)
    · omega
    · omega

/-! ### What the search finds -/

theorem reads_back_of_onGrid? {digits coefficient : Nat} {place : Int}
    (found : magnitude.onGrid? tie digits = some (coefficient, place)) :
    ofDecimal? coefficient place = some magnitude := by
  obtain ⟨chosen, isChosen, same⟩ := Option.map_eq_some_iff.mp found
  cases same
  exact of_decide_eq_true (TieRule.readsBack_of_neighbour? isChosen)

theorem isSome_onGrid? {digits : Nat}
    (fine : magnitude.FineGrid (magnitude.leadingExponent + 1 - digits)) :
    (magnitude.onGrid? tie digits).isSome = true := by
  have reads := neighbour_reads_back fine
  rw [onGrid?, Option.isSome_map]
  exact TieRule.isSome_neighbour? (reads.imp decide_eq_true decide_eq_true)

/-! ### Seventeen digits -/

theorem unitsPerOne_le_pow : unitsPerOne ≤ Nat.pow 10 leastPower := by decide +kernel

/-- A positive magnitude is at least the power of ten of its leading exponent. -/
theorem exists_digitCount (positive : 0 < magnitude.units) :
    ∃ count : Nat, magnitude.leadingExponent = count - leastPower ∧
      Nat.pow 10 count * unitsPerOne ≤ magnitude.units * Nat.pow 10 leastPower := by
  let scaled := magnitude.units * Nat.pow 10 leastPower / unitsPerOne
  have scaledPositive : 0 < scaled := by
    apply Nat.div_pos _ unitsPerOne_pos
    exact Nat.le_trans unitsPerOne_le_pow (Nat.le_mul_of_pos_left _ positive)
  have someDigit : 0 < (decimalDigits scaled).length := Nat.length_toDigits_pos
  have reached : Nat.pow 10 ((decimalDigits scaled).length - 1) ≤ scaled := by
    by_contra beyond
    by_cases single : (decimalDigits scaled).length - 1 = 0
    · rw [single] at beyond
      exact beyond scaledPositive
    · have fewer := (Nat.length_toDigits_le_iff (by decide) (Nat.pos_of_ne_zero single)).mpr
        (Nat.not_le.mp beyond)
      unfold decimalDigits at fewer someDigit
      omega
  refine ⟨(decimalDigits scaled).length - 1, ?_, ?_⟩
  · rw [leadingExponent, Int.natCast_sub someDigit]
    rfl
  · exact Nat.le_trans (Nat.mul_le_mul_right _ reached) (Nat.div_mul_le_self _ _)

theorem fineGrid_of_pos (positive : 0 < magnitude.units) :
    magnitude.FineGrid (magnitude.leadingExponent + 1 - sufficientDigits) := by
  obtain ⟨count, leading, reached⟩ := exists_digitCount positive
  have split (low high : Nat) : Nat.pow 10 (low + high) = Nat.pow 10 low * Nat.pow 10 high :=
    Nat.pow_add 10 low high
  have scale := Nat.lt_of_lt_of_le unitsPerOne_pos unitsPerOne_le_pow
  have least : leastPower = 400 := rfl
  have digits : sufficientDigits = 17 := rfl
  rw [leading, FineGrid]
  cases place : (count - leastPower + 1 - sufficientDigits : Int) with
  | ofNat power =>
      have total : count = 16 + power + leastPower := by
        rw [least, digits, Int.ofNat_eq_natCast] at place
        rw [least]
        omega
      dsimp only [overPower]
      rw [total, split, split] at reached
      refine Nat.le_of_mul_le_mul_right ?_ scale
      calc Nat.pow 10 16 * (unitsPerOne * Nat.pow 10 power) * Nat.pow 10 leastPower
          = Nat.pow 10 16 * Nat.pow 10 power * Nat.pow 10 leastPower * unitsPerOne := by ring
        _ ≤ magnitude.units * Nat.pow 10 leastPower := reached
  | negSucc power =>
      have total : count + (power + 1) = 16 + leastPower := by
        rw [least, digits] at place
        rw [least]
        omega
      dsimp only [overPower]
      refine Nat.le_of_mul_le_mul_right ?_ scale
      calc Nat.pow 10 16 * unitsPerOne * Nat.pow 10 leastPower
          = Nat.pow 10 (16 + leastPower) * unitsPerOne := by
            rw [split]
            ring
        _ = Nat.pow 10 count * unitsPerOne * Nat.pow 10 (power + 1) := by
            rw [← total, split]
            ring
        _ ≤ magnitude.units * Nat.pow 10 leastPower * Nat.pow 10 (power + 1) :=
            Nat.mul_le_mul_right _ reached
        _ = magnitude.units * Nat.pow 10 (power + 1) * Nat.pow 10 leastPower := by ring

/-- The decimal that is written for a positive magnitude reads back as it. -/
theorem exists_shortest_eq (positive : 0 < magnitude.units) (tie : TieRule) :
    ∃ coefficient place, magnitude.shortest tie = .ofCoefficient coefficient place ∧
      ofDecimal? coefficient place = some magnitude := by
  have enough : ((List.range sufficientDigits).findSome? fun more =>
      magnitude.onGrid? tie (more + 1)).isSome = true := by
    rw [List.findSome?_isSome_iff]
    exact ⟨16, List.mem_range.mpr (by decide), isSome_onGrid? (fineGrid_of_pos positive)⟩
  obtain ⟨⟨coefficient, place⟩, found⟩ := Option.isSome_iff_exists.mp enough
  obtain ⟨more, -, onGrid⟩ := List.exists_of_findSome?_eq_some found
  refine ⟨coefficient, place, ?_, reads_back_of_onGrid? onGrid⟩
  rw [shortest, if_neg positive.ne', found]

end Magnitude

end DesignTokens
