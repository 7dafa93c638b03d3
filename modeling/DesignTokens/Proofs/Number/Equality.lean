/-
Equal numbers and their texts.

Two numbers that are equal are the same, or they are the two zeros. A zero of
either sign is written as a whole number, so no text tells equal numbers apart.
-/
import DesignTokens.Number.Text

namespace DesignTokens

namespace Number

theorem eq_or_zeros_of_equals {left right : Number} (same : left.equals right = true) :
    left = right ∨ ∃ leftSign rightSign, left = .zero leftSign ∧ right = .zero rightSign := by
  cases left with
  | nan => cases right <;> cases same
  | infinity sign =>
      cases right with
      | infinity other => exact .inl (congrArg infinity (eq_of_beq same))
      | nan => cases same
      | finite => cases same
  | finite sign magnitude =>
      cases right with
      | finite other another =>
          obtain ⟨units, representable⟩ := magnitude
          obtain ⟨otherUnits, otherRepresentable⟩ := another
          rw [equals, Bool.and_eq_true, Bool.or_eq_true, beq_iff_eq, beq_iff_eq, beq_iff_eq] at same
          obtain ⟨sameUnits, signs⟩ := same
          dsimp only at sameUnits signs
          subst sameUnits
          rcases signs with sameSign | zero
          · exact .inl (by rw [sameSign])
          · subst zero
            exact .inr ⟨sign, other, rfl, rfl⟩
      | nan => cases same
      | infinity => cases same

theorem integer?_zero (negative : Bool) : (zero negative).integer? = some 0 := by
  rw [zero, integer?]
  dsimp only
  rw [if_pos (Nat.zero_mod _), Nat.zero_div]
  cases negative <;> rfl

theorem whole?_zero (negative : Bool) : (zero negative).whole? = some 0 := by
  rw [whole?, integer?_zero]
  rfl

theorem displayText_of_whole {number : Number} {value : Int} (whole : number.whole? = some value) :
    number.displayText = integerText value := by
  unfold displayText
  rw [whole]

theorem jsonText_of_whole {number : Number} {value : Int} (whole : number.whole? = some value) :
    number.jsonText = integerText value := by
  unfold jsonText
  rw [whole]

theorem displayText_eq_of_equals {left right : Number} (same : left.equals right = true) :
    left.displayText = right.displayText := by
  rcases eq_or_zeros_of_equals same with rfl | ⟨leftSign, rightSign, rfl, rfl⟩
  · rfl
  · rw [displayText_of_whole (whole?_zero leftSign), displayText_of_whole (whole?_zero rightSign)]

end Number

end DesignTokens
