/-
The characters of number texts.

The text of a number consists of digits, a point, a sign and the letters of the
names of what is not finite. No other character comes from a number into a
text that is written with it.
-/
import DesignTokens.Number.Text

namespace DesignTokens

theorem isDigit_of_mem_decimalDigits {value : Nat} {c : Char}
    (present : c ∈ decimalDigits value) : c.isDigit = true :=
  Nat.isDigit_of_mem_toDigits (by decide) (by decide) present

theorem mem_signed {negative : Bool} {text : List Char} {c : Char}
    (present : c ∈ signed negative text) : c = '-' ∨ c ∈ text := by
  unfold signed at present
  split at present
  · exact List.mem_cons.mp present
  · exact .inr present

/-! ### Decimals -/

namespace Scientific

theorem isDigit_of_mem_ofCoefficient {coefficient : Nat} {place : Int} {c : Char}
    (present : c ∈ (ofCoefficient coefficient place).digits) : c.isDigit = true := by
  -- Only trailing zeros are taken away from the digits of the coefficient.
  have kept := List.mem_reverse.mp present
  exact isDigit_of_mem_decimalDigits
    (List.mem_reverse.mp ((List.dropWhile_sublist _).subset kept))

/-- Decimals that have digits only. -/
def Digital (decimal : Scientific) : Prop :=
  ∀ c ∈ decimal.digits, c.isDigit = true

theorem mem_positional {decimal : Scientific} (digital : decimal.Digital) {c : Char}
    (present : c ∈ decimal.positional) : c.isDigit = true ∨ c = '.' := by
  have zero {count : Nat} (padding : c ∈ List.replicate count '0') : c.isDigit = true := by
    rw [(List.mem_replicate.mp padding).2]
    decide
  unfold positional at present
  split at present
  · dsimp only at present
    split at present
    · rcases List.mem_append.mp present with digit | padding
      · exact .inl (digital c digit)
      · exact .inl (zero padding)
    · rcases List.mem_append.mp present with before | behind
      · exact .inl (digital c (List.mem_of_mem_take before))
      · rcases List.mem_cons.mp behind with point | after
        · exact .inr point
        · exact .inl (digital c (List.mem_of_mem_drop after))
  · rcases List.mem_cons.mp present with leading | behind
    · rw [leading]
      exact .inl (by decide)
    · rcases List.mem_cons.mp behind with point | after
      · exact .inr point
      · rcases List.mem_append.mp after with padding | digit
        · exact .inl (zero padding)
        · exact .inl (digital c digit)

end Scientific

theorem Magnitude.digital_shortest (magnitude : Magnitude) (tie : TieRule) :
    (magnitude.shortest tie).Digital := by
  unfold shortest
  split
  · intro c present
    rw [List.mem_singleton.mp present]
    decide
  · split
    · exact fun c => Scientific.isDigit_of_mem_ofCoefficient
    · exact fun c => Scientific.isDigit_of_mem_ofCoefficient

/-! ### Texts for people and style sheets -/

theorem mem_integerText {value : Int} {c : Char} (present : c ∈ integerText value) :
    c.isDigit = true ∨ c = '-' :=
  (mem_signed present).elim .inr (fun digit => .inl (isDigit_of_mem_decimalDigits digit))

namespace Number

variable {number : Number} {c : Char}

theorem mem_displayText_of_isFinite (finite : number.isFinite = true)
    (present : c ∈ number.displayText) : c.isDigit = true ∨ c = '.' ∨ c = '-' := by
  unfold displayText at present
  split at present
  · rcases mem_integerText present with digit | minus
    · exact .inl digit
    · exact .inr (.inr minus)
  · cases number with
    | nan => cases finite
    | infinity => cases finite
    | finite negative magnitude =>
        rcases mem_signed present with minus | written
        · exact .inr (.inr minus)
        · rcases Scientific.mem_positional (magnitude.digital_shortest _) written with
            digit | point
          · exact .inl digit
          · exact .inr (.inl point)

theorem mem_displayText (present : c ∈ number.displayText) :
    c.isDigit = true ∨ c.isAlpha = true ∨ c = '.' ∨ c = '-' := by
  have letter {name : List Char} (letters : name.all Char.isAlpha = true)
      (written : c ∈ name) : c.isAlpha = true := List.all_eq_true.mp letters c written
  cases number with
  | nan =>
      have named : c ∈ ['N', 'a', 'N'] := present
      exact .inr (.inl (letter (by decide) named))
  | infinity negative =>
      have named : c ∈ signed negative ['i', 'n', 'f'] := present
      rcases mem_signed named with minus | written
      · exact .inr (.inr (.inr minus))
      · exact .inr (.inl (letter (by decide) written))
  | finite negative magnitude =>
      rcases mem_displayText_of_isFinite rfl present with digit | point | minus
      · exact .inl digit
      · exact .inr (.inr (.inl point))
      · exact .inr (.inr (.inr minus))

end Number

end DesignTokens
