/-
Written numbers are read back.

Each layout of a decimal keeps its value: padding zeros, the place of the point and
an exponent change how the value is written, not what it is. The decimal is the
shortest one that reads back, so the text of a number is read as the number again.
Only the sign of a zero may be lost, by the forms that write it as an integer.
-/
import Mathlib.Data.List.TakeWhile
import DesignTokens.Number.Text
import DesignTokens.Proofs.Number.Characters
import DesignTokens.Proofs.Number.Exact
import DesignTokens.Proofs.Number.Shortest
import DesignTokens.Proofs.Number.Whole

namespace DesignTokens

/-! ### The values of digits -/

theorem digitsValue_append (left right : List Char) :
    digitsValue (left ++ right) = digitsValue left * 10 ^ right.length + digitsValue right := by
  have value (digits : List Char) (start : Nat) :
      digits.foldl appendDigit start = Nat.ofDigitChars 10 digits start :=
    Nat.ofDigitChars_eq_foldl.symm
  rw [digitsValue, digitsValue, digitsValue, List.foldl_append, value right, value right,
    Nat.ofDigitChars_eq_ofDigitChars_zero, Nat.mul_comm]

theorem digitsValue_zeros (count : Nat) : digitsValue (List.replicate count '0') = 0 := by
  induction count with
  | zero => rfl
  | succ count ih =>
      rw [List.replicate_succ', digitsValue_append, ih]
      rfl

theorem digital_zeros (count : Nat) : ∀ c ∈ List.replicate count '0', c.isDigit = true := by
  intro c zero
  rw [List.eq_of_mem_replicate zero]
  rfl

theorem toLower_of_isDigit {c : Char} (digit : c.isDigit = true) : c.toLower = c := by
  have low : c.val ≤ '9'.val := of_decide_eq_true (Bool.and_eq_true_iff.mp digit).2
  apply dif_neg
  rintro ⟨high, -⟩
  exact absurd (UInt32.le_trans high low) (by decide)

/-! ### Texts and the values that they denote -/

/-- The text starts with a digit, and after any sign it is read as a numeral of this value. -/
structure Denotes (text : List Char) (value : ℚ) : Prop where
  startsWithDigit : ∃ first rest, text = first :: rest ∧ first.isDigit = true
  reads : ∀ negative, ∃ decimal, readUnsigned? negative text = some decimal ∧
    decimal.negative = negative ∧ decimal.magnitude = value

/-- A numeral has a whole part, after it perhaps a point and digits, and perhaps an exponent. -/
theorem denotes_of_parts {whole tail fraction after : List Char} {exponent : Int}
    (digital : ∀ c ∈ whole, c.isDigit = true) (nonempty : whole ≠ [])
    (stops : ∀ c ∈ tail.head?, c.isDigit = false) (point : takeFraction tail = (fraction, after))
    (power : readExponent? after = some exponent) :
    Denotes (whole ++ tail)
      (digitsValue (whole ++ fraction) * 10 ^ (exponent - fraction.length)) where
  startsWithDigit := by
    cases whole with
    | nil => exact absurd rfl nonempty
    | cons first rest => exact ⟨first, rest ++ tail, rfl, digital first List.mem_cons_self⟩
  reads negative := by
    have taken := takeDigits_append digital stops
    refine ⟨.ofDigits negative whole fraction exponent, ?_, rfl, rfl⟩
    unfold readUnsigned?
    rw [taken]
    dsimp only
    rw [point]
    dsimp only
    rw [List.isEmpty_eq_false_iff.mpr nonempty, power]
    rfl

theorem takeDigits_digits {digits : List Char} (digital : ∀ c ∈ digits, c.isDigit = true) :
    takeDigits digits = (digits, []) := by
  have stops : ∀ c ∈ ([] : List Char).head?, c.isDigit = false := by
    simp
  have taken := takeDigits_append digital stops
  rwa [List.append_nil] at taken

theorem denotes_digits {digits : List Char} (digital : ∀ c ∈ digits, c.isDigit = true)
    (nonempty : digits ≠ []) : Denotes digits (digitsValue digits) := by
  have stops : ∀ c ∈ ([] : List Char).head?, c.isDigit = false := by
    simp
  have point : takeFraction [] = ([], []) := rfl
  simpa using denotes_of_parts digital nonempty stops point rfl

theorem denotes_fraction {whole fraction : List Char} (digital : ∀ c ∈ whole, c.isDigit = true)
    (nonempty : whole ≠ []) (digitalFraction : ∀ c ∈ fraction, c.isDigit = true) :
    Denotes (whole ++ '.' :: fraction)
      (digitsValue (whole ++ fraction) * 10 ^ (-fraction.length : Int)) := by
  have point : takeFraction ('.' :: fraction) = (fraction, []) :=
    takeDigits_digits digitalFraction
  have stops : ∀ c ∈ ('.' :: fraction).head?, c.isDigit = false := by
    simp
  simpa using denotes_of_parts digital nonempty stops point rfl

/-! ### Decimals in scientific form -/

namespace Scientific

variable {decimal : Scientific}

/-- The value of a decimal: its first digit stands at its exponent. -/
def value (decimal : Scientific) : ℚ :=
  digitsValue decimal.digits * 10 ^ (decimal.exponent + 1 - decimal.digits.length)

/-- Digits, and at least one of them. -/
structure Proper (decimal : Scientific) : Prop where
  digital : decimal.Digital
  nonempty : decimal.digits ≠ []

/-- What is taken away at the end of digits are zeros. -/
theorem exists_trailingZeros (digits : List Char) :
    ∃ count, digits = (digits.reverse.dropWhile (· = '0')).reverse ++ List.replicate count '0' := by
  let zeros := digits.reverse.takeWhile (· = '0')
  have onlyZeros : zeros.reverse = List.replicate zeros.length '0' := by
    refine List.eq_replicate_iff.mpr ⟨List.length_reverse, fun c present => ?_⟩
    exact of_decide_eq_true (List.mem_takeWhile_imp (p := (· = '0')) (List.mem_reverse.mp present))
  refine ⟨zeros.length, ?_⟩
  rw [← onlyZeros, ← List.reverse_append, List.takeWhile_append_dropWhile, List.reverse_reverse]

/-- Trailing zeros that are taken away come back in the exponent. -/
theorem value_ofCoefficient (coefficient : Nat) (place : Int) :
    (ofCoefficient coefficient place).value = coefficient * 10 ^ place := by
  obtain ⟨zeros, split⟩ := exists_trailingZeros (decimalDigits coefficient)
  let kept := ((decimalDigits coefficient).reverse.dropWhile (· = '0')).reverse
  have digits : (coefficient : ℚ) = digitsValue kept * 10 ^ zeros := by
    have whole := digitsValue_decimalDigits coefficient
    rw [split, digitsValue_append, digitsValue_zeros, List.length_replicate, Nat.add_zero] at whole
    exact_mod_cast whole.symm
  have length : (decimalDigits coefficient).length = kept.length + zeros := by
    have total := congrArg List.length split
    rwa [List.length_append, List.length_replicate] at total
  have exponent : (ofCoefficient coefficient place).exponent + 1 - kept.length = zeros + place := by
    rw [ofCoefficient, length]
    push_cast
    ring
  have nonzero : (10 : ℚ) ≠ 0 := by norm_num
  calc (ofCoefficient coefficient place).value
      = digitsValue kept * 10 ^ (zeros + place : Int) := by
        rw [← exponent]
        rfl
    _ = coefficient * 10 ^ place := by
        rw [digits, zpow_add₀ nonzero, zpow_natCast, mul_assoc]

theorem proper_ofCoefficient {coefficient : Nat} (positive : coefficient ≠ 0) (place : Int) :
    (ofCoefficient coefficient place).Proper := by
  refine ⟨fun c => isDigit_of_mem_ofCoefficient, fun empty => positive ?_⟩
  have total := value_ofCoefficient coefficient place
  have nonzero : (10 : ℚ) ^ place ≠ 0 := zpow_ne_zero _ (by norm_num)
  have zero : (coefficient : ℚ) * 10 ^ place = 0 := by
    rw [← total, value, empty, digitsValue, List.foldl_nil, Nat.cast_zero, zero_mul]
  exact_mod_cast (mul_eq_zero.mp zero).resolve_right nonzero

/-! ### The layouts -/

/-- A whole decimal is written as its digits with zeros after them. -/
theorem exists_padding (whole : decimal.isWhole = true) (nonempty : decimal.digits ≠ []) :
    ∃ count, decimal.positional = decimal.digits ++ List.replicate count '0' ∧
      (digitsValue (decimal.digits ++ List.replicate count '0') : ℚ) = decimal.value := by
  obtain ⟨digits, exponent⟩ := decimal
  have within : (digits.length : Int) ≤ exponent + 1 := of_decide_eq_true whole
  have positive : 0 < digits.length := List.length_pos_iff.mpr nonempty
  obtain ⟨places, rfl⟩ : ∃ places : Nat, exponent = places := ⟨exponent.toNat, by omega⟩
  have short : digits.length ≤ places + 1 := by omega
  refine ⟨places + 1 - digits.length, if_pos short, ?_⟩
  have zeros : (places : Int) + 1 - digits.length = ((places + 1 - digits.length : Nat) : Int) := by
    omega
  rw [value, zeros, digitsValue_append, digitsValue_zeros, List.length_replicate, zpow_natCast,
    Nat.add_zero, Nat.cast_mul, Nat.cast_pow]
  rfl

/-- The point stands among the digits. -/
theorem denotes_positional_of_inside {digits : List Char} {exponent : Nat}
    (digital : ∀ c ∈ digits, c.isDigit = true) (inside : exponent + 1 < digits.length) :
    Denotes (positional ⟨digits, exponent⟩) (value ⟨digits, exponent⟩) := by
  have layout : positional ⟨digits, exponent⟩ =
      digits.take (exponent + 1) ++ '.' :: digits.drop (exponent + 1) :=
    if_neg (Nat.not_le.mpr inside)
  have nonempty : digits.take (exponent + 1) ≠ [] := by
    rw [← List.length_pos_iff, List.length_take]
    omega
  have places : (exponent : Int) + 1 - digits.length =
      -((digits.drop (exponent + 1)).length : Int) := by
    rw [List.length_drop]
    omega
  have digitalFraction : ∀ c ∈ digits.drop (exponent + 1), c.isDigit = true :=
    fun c kept => digital c (List.mem_of_mem_drop kept)
  have denoted := denotes_fraction (fun c kept => digital c (List.mem_of_mem_take kept)) nonempty
    digitalFraction
  rw [List.take_append_drop, ← places] at denoted
  rw [layout]
  exact denoted

/-- The point stands before the digits, with zeros between. -/
theorem denotes_positional_of_before {digits : List Char} (zeros : Nat)
    (digital : ∀ c ∈ digits, c.isDigit = true) :
    Denotes (positional ⟨digits, .negSucc zeros⟩) (value ⟨digits, .negSucc zeros⟩) := by
  have places : Int.negSucc zeros + 1 - digits.length =
      -((List.replicate zeros '0' ++ digits).length : Int) := by
    rw [List.length_append, List.length_replicate]
    omega
  have leading : digitsValue (['0'] ++ (List.replicate zeros '0' ++ digits)) =
      digitsValue digits := by
    rw [← List.append_assoc, ← List.replicate_one, List.replicate_append_replicate,
      digitsValue_append, digitsValue_zeros, Nat.zero_mul, Nat.zero_add]
  have denoted := denotes_fraction (digital_zeros 1) (List.cons_ne_nil _ _)
    (List.forall_mem_append.mpr ⟨digital_zeros zeros, digital⟩)
  rw [← places] at denoted
  rw [value, ← leading]
  exact denoted

theorem denotes_positional (proper : decimal.Proper) :
    Denotes decimal.positional decimal.value := by
  by_cases whole : decimal.isWhole = true
  · obtain ⟨count, layout, padded⟩ := exists_padding whole proper.nonempty
    rw [layout, ← padded]
    exact denotes_digits (List.forall_mem_append.mpr ⟨proper.digital, digital_zeros count⟩)
      (List.append_ne_nil_of_left_ne_nil proper.nonempty _)
  · obtain ⟨digits, exponent⟩ := decimal
    have beyond : exponent + 1 < digits.length :=
      Int.not_le.mp fun within => whole (decide_eq_true within)
    cases exponent with
    | ofNat exponent => exact denotes_positional_of_inside proper.digital (Int.ofNat_lt.mp beyond)
    | negSucc zeros => exact denotes_positional_of_before zeros proper.digital

theorem denotes_pointed (proper : decimal.Proper) : Denotes decimal.pointed decimal.value := by
  unfold pointed
  split
  · rename_i whole
    obtain ⟨count, layout, padded⟩ := exists_padding whole proper.nonempty
    have denoted := denotes_fraction
      (List.forall_mem_append.mpr ⟨proper.digital, digital_zeros count⟩)
      (List.append_ne_nil_of_left_ne_nil proper.nonempty _) (digital_zeros 1)
    have tenth : (digitsValue (decimal.digits ++ List.replicate count '0' ++ ['0']) : ℚ) *
        10 ^ (-1 : Int) = decimal.value := by
      have zero : digitsValue ['0'] = 0 := digitsValue_zeros 1
      rw [digitsValue_append, zero, Nat.add_zero, Nat.cast_mul, padded, mul_assoc]
      norm_num
    rw [layout, ← tenth]
    exact denoted
  · exact denotes_positional proper

/-- An exponent is read with the mark that stands for its sign. -/
theorem readExponent?_written (exponent : Int) :
    readExponent? ('e' :: (if exponent < 0 then '-' else '+') :: decimalDigits exponent.natAbs) =
      some exponent := by
  have digits : takeDigits (decimalDigits exponent.natAbs) =
      (decimalDigits exponent.natAbs, []) :=
    takeDigits_digits fun c => isDigit_of_mem_decimalDigits
  have nonempty : (decimalDigits exponent.natAbs).isEmpty = false :=
    List.isEmpty_eq_false_iff.mpr Nat.toDigits_ne_nil
  have read (negative : Bool) (mark : Char)
      (sign : takeSign (mark :: decimalDigits exponent.natAbs) =
        (negative, decimalDigits exponent.natAbs)) :
      readExponent? ('e' :: mark :: decimalDigits exponent.natAbs) =
        some (if negative then -(exponent.natAbs : Int) else exponent.natAbs) := by
    rw [readExponent?, if_pos (by decide), readExponentDigits?, sign]
    dsimp only
    rw [digits]
    dsimp only
    rw [nonempty, digitsValue_decimalDigits]
    rfl
  by_cases negative : exponent < 0
  · rw [if_pos negative, read true '-' rfl, if_pos rfl]
    exact congrArg some (by omega)
  · rw [if_neg negative, read false '+' rfl, if_neg Bool.false_ne_true]
    exact congrArg some (by omega)

theorem denotes_exponential (proper : decimal.Proper) :
    Denotes decimal.exponential decimal.value := by
  obtain ⟨digits, exponent⟩ := decimal
  have digital : ∀ c ∈ digits, c.isDigit = true := proper.digital
  cases digits with
  | nil => exact absurd rfl proper.nonempty
  | cons first rest =>
      rw [List.forall_mem_cons] at digital
      let power := 'e' :: (if exponent < 0 then '-' else '+') :: decimalDigits exponent.natAbs
      let tail := (if rest.isEmpty then [] else '.' :: rest) ++ power
      have stops : ∀ c ∈ power.head?, c.isDigit = false := by
        simp [power]
      have point : takeFraction tail = (rest, power) := by
        cases rest with
        | nil => rfl
        | cons second others => exact takeDigits_append digital.2 stops
      have tailStops : ∀ c ∈ tail.head?, c.isDigit = false := by
        cases rest <;> simp [tail, power]
      have leading : ∀ c ∈ [first], c.isDigit = true := List.forall_mem_singleton.mpr digital.1
      have denoted := denotes_of_parts leading (List.cons_ne_nil _ _) tailStops point
        (readExponent?_written exponent)
      have places : exponent + 1 - (first :: rest).length = exponent - rest.length := by
        rw [List.length_cons]
        omega
      rw [value, places]
      exact denoted

end Scientific

/-- The decimal that is written has a value that reads back, also for a magnitude of zero. -/
theorem Magnitude.exists_value_shortest_eq (magnitude : Magnitude) (tie : TieRule) :
    (magnitude.shortest tie).Proper ∧
      ∃ (coefficient : Nat) (place : Int),
        (magnitude.shortest tie).value = coefficient * 10 ^ place ∧
        ofDecimal? coefficient place = some magnitude := by
  by_cases zero : magnitude.units = 0
  · have written : magnitude.shortest tie = ⟨['0'], 0⟩ := if_pos zero
    have value : Scientific.value ⟨['0'], 0⟩ = (0 : Nat) * 10 ^ (0 : Int) := by
      rw [Scientific.value]
      exact congrArg (fun count : Nat => (count : ℚ) * _) (digitsValue_zeros 1)
    rw [written]
    refine ⟨⟨digital_zeros 1, List.cons_ne_nil _ _⟩, 0, 0, value, ?_⟩
    have isZero : magnitude = ⟨0, representable_zero⟩ := eq_of_units zero
    rw [ofDecimal?_zero, isZero]
  · obtain ⟨coefficient, place, written, read⟩ :=
      exists_shortest_eq (Nat.pos_of_ne_zero zero) tie
    have nonzero : coefficient ≠ 0 := by
      rintro rfl
      rw [ofDecimal?_zero] at read
      exact zero (congrArg units (Option.some.inj read)).symm
    rw [written]
    exact ⟨Scientific.proper_ofCoefficient nonzero place, coefficient, place,
      Scientific.value_ofCoefficient coefficient place, read⟩

/-! ### Signed texts -/

namespace Number

variable {text : List Char}

theorem takeSign_signed {first : Char} {rest : List Char} (digit : first.isDigit = true)
    (negative : Bool) :
    takeSign (signed negative (first :: rest)) = (negative, first :: rest) := by
  cases negative with
  | true => rfl
  | false =>
      have notMinus : first ≠ '-' := by
        rintro rfl
        cases digit
      have notPlus : first ≠ '+' := by
        rintro rfl
        cases digit
      change (if first = '-' then _ else if first = '+' then _ else _) = _
      rw [if_neg notMinus, if_neg notPlus]

/-- No name starts with a digit. -/
theorem nameIn_not_mem_unboundedNames {first : Char} {rest : List Char}
    (digit : first.isDigit = true) (taken : (takeSign text).2 = first :: rest) :
    nameIn text ∉ unboundedNames := by
  have start : (nameIn text).toList.head? = some first := by
    rw [nameIn, taken, String.toList_ofList, List.map_cons, List.head?_cons,
      toLower_of_isDigit digit]
  have letters : ∀ name ∈ unboundedNames, ∀ c ∈ name.toList.head?, c.isDigit = false := by
    simp [unboundedNames]
  intro among
  rw [letters _ among first start] at digit
  cases digit

theorem ofText?_signed {value : ℚ} (denotes : Denotes text value) {coefficient : Nat} {place : Int}
    (same : coefficient * 10 ^ place = value) (negative : Bool) :
    ofText? (signed negative text) = some (Decimal.mk negative coefficient place).toNumber := by
  obtain ⟨first, rest, starts, digit⟩ := denotes.startsWithDigit
  obtain ⟨decimal, reads, sign, read⟩ := denotes.reads negative
  have taken : takeSign (signed negative text) = (negative, text) := by
    rw [starts]
    exact takeSign_signed digit negative
  have other : nameIn (signed negative text) ∉ unboundedNames := by
    have read : (takeSign (signed negative text)).2 = first :: rest := by
      rw [taken, starts]
    exact nameIn_not_mem_unboundedNames digit read
  have alike : Magnitude.ofDecimal? decimal.coefficient decimal.exponent =
      Magnitude.ofDecimal? coefficient place :=
    Magnitude.ofDecimal?_congr (read.trans same.symm)
  rw [ofText?_of_not_name other, taken, reads, Option.map_some, Decimal.toNumber_eq,
    Decimal.toNumber_eq, alike, sign]

theorem ofText?_integerText (value : Int) : ofText? (integerText value) = some (ofInt value) := by
  have digits : Denotes (decimalDigits value.natAbs) value.natAbs := by
    have digital : ∀ c ∈ decimalDigits value.natAbs, c.isDigit = true :=
      fun c => isDigit_of_mem_decimalDigits
    have denotes := denotes_digits digital Nat.toDigits_ne_nil
    rwa [digitsValue_decimalDigits] at denotes
  have ones : (value.natAbs : ℚ) * 10 ^ (0 : Int) = value.natAbs := by
    rw [zpow_zero, mul_one]
  rw [integerText, ofText?_signed digits ones, toNumber_integer, ofInt]

/-- In any layout that keeps the value of a decimal. -/
theorem ofText?_shortest {layout : Scientific → List Char}
    (denotes : ∀ {decimal : Scientific}, decimal.Proper → Denotes (layout decimal) decimal.value)
    (negative : Bool) (magnitude : Magnitude) (tie : TieRule) :
    ofText? (signed negative (layout (magnitude.shortest tie))) =
      some (.finite negative magnitude) := by
  obtain ⟨proper, coefficient, place, value, read⟩ := magnitude.exists_value_shortest_eq tie
  rw [ofText?_signed (denotes proper) value.symm, Decimal.toNumber_eq, read]
  rfl

/-! ### The written forms -/

variable {number : Number}

theorem plain_of_whole?_eq_none (fractional : number.whole? = none) : number.plain = number := by
  rcases number.plain_cases with same | ⟨negative, rfl, -⟩
  · exact same
  · have counts : (zero negative).whole? = some 0 := by
      cases negative <;> decide +kernel
    rw [counts] at fractional
    cases fractional

theorem ofText?_jsonText (finite : number.isFinite = true) :
    ofText? number.jsonText = some number.plain := by
  unfold jsonText
  cases whole : number.whole? with
  | some value =>
      dsimp only
      rw [ofText?_integerText, ofInt_of_integer? (integer?_of_whole? whole)]
  | none =>
      rw [plain_of_whole?_eq_none whole]
      cases number with
      | nan => cases finite
      | infinity => cases finite
      | finite negative magnitude =>
          dsimp only
          split
          · exact ofText?_shortest Scientific.denotes_pointed negative magnitude .evenDigit
          · exact ofText?_shortest Scientific.denotes_exponential negative magnitude .evenDigit

theorem ofText?_displayText (number : Number) :
    ofText? number.displayText = some number.plain := by
  unfold displayText
  cases whole : number.whole? with
  | some value =>
      dsimp only
      rw [ofText?_integerText, ofInt_of_integer? (integer?_of_whole? whole)]
  | none =>
      rw [plain_of_whole?_eq_none whole]
      cases number with
      | nan => rfl
      | infinity negative => cases negative <;> rfl
      | finite negative magnitude =>
          exact ofText?_shortest Scientific.denotes_positional negative magnitude .upward

theorem ofText?_tomlText (number : Number) : ofText? number.tomlText = some number := by
  cases number with
  | nan => rfl
  | infinity negative => cases negative <;> rfl
  | finite negative magnitude =>
      exact ofText?_shortest Scientific.denotes_pointed negative magnitude .upward

end Number

end DesignTokens
