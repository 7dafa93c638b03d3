/-
The exact value of a number.

A finite number is a signed count of units, and so it has a value among the
rational numbers. A number that counts as an integer has that integer as its
value, however large it is: no rounding stands between the two.
-/
import Mathlib.Algebra.Field.Rat
import Mathlib.Data.Nat.Cast.Field
import DesignTokens.Number.Basic

namespace DesignTokens

/-- The value of a magnitude in ones. -/
def Magnitude.value (magnitude : Magnitude) : ℚ := magnitude.units / unitsPerOne

theorem Magnitude.value_eq_quotient {magnitude : Magnitude}
    (whole : magnitude.units % unitsPerOne = 0) :
    magnitude.value = (magnitude.units / unitsPerOne : Nat) := by
  have ones : (unitsPerOne : ℚ) ≠ 0 := Nat.cast_ne_zero.mpr unitsPerOne_pos.ne'
  rw [value, Nat.cast_div (Nat.dvd_of_mod_eq_zero whole) ones]

namespace Number

variable {number : Number}

/-- The value of a finite number; there is none for an infinity or a NaN. -/
def value? : Number → Option ℚ
  | .finite negative magnitude => some (if negative then -magnitude.value else magnitude.value)
  | _ => none

theorem exists_value?_of_isFinite (finite : number.isFinite = true) :
    ∃ value, number.value? = some value := by
  cases number with
  | finite negative magnitude => exact ⟨_, rfl⟩
  | nan => cases finite
  | infinity => cases finite

theorem value?_of_integer? {integer : Int} (counts : number.integer? = some integer) :
    number.value? = some (integer : ℚ) := by
  cases number with
  | nan => cases counts
  | infinity => cases counts
  | finite negative magnitude =>
      rw [integer?] at counts
      by_cases whole : magnitude.units % unitsPerOne = 0
      · rw [if_pos whole] at counts
        cases counts
        rw [value?, magnitude.value_eq_quotient whole]
        cases negative with
        | true => simp only [↓reduceIte, Int.cast_neg, Int.cast_natCast]
        | false => simp only [Bool.false_eq_true, ↓reduceIte, Int.cast_natCast]
      · rw [if_neg whole] at counts
        cases counts

theorem integer?_of_whole? {integer : Int} (counts : number.whole? = some integer) :
    number.integer? = some integer :=
  (Option.filter_eq_some_iff.mp counts).1

theorem natAbs_le_of_whole? {integer : Int} (counts : number.whole? = some integer) :
    integer.natAbs ≤ wholeLimit :=
  of_decide_eq_true (Option.filter_eq_some_iff.mp counts).2

end Number

end DesignTokens
