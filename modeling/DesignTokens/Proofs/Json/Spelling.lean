/-
Written texts and the tokens that they are cut into.

A text spells a list of tokens when cutting it gives these tokens, whatever comes
after it. Only a number minds what comes after it: the next character must not go
on with the number. A quoted text spells its string, whatever characters are in
it, and the integer of a whole number spells the number with zeros unsigned.
-/
import DesignTokens.Json.Writer
import DesignTokens.Proofs.Json.Token
import DesignTokens.Proofs.Number.Characters
import DesignTokens.Proofs.Number.Exact
import DesignTokens.Proofs.Number.Significand
import DesignTokens.Proofs.Value.Canonical

namespace DesignTokens

namespace Json

variable {c : Char} {text more rest after : List Char} {token : Token} {tokens others : List Token}

/-! ### Texts and the tokens that they spell -/

/-- Whether a character goes on with the number before it. -/
def goesOn (c : Char) : Bool := c.isDigit || c == '.' || c == 'e' || c == 'E'

/-- A number ends where this text begins. -/
def EndsNumber : List Char → Prop
  | [] => True
  | c :: _ => goesOn c = false

/-- Wherever the text stands, it is cut into these tokens. -/
def Spells (text : List Char) (tokens : List Token) : Prop :=
  ∀ rest, EndsNumber rest → tokens? (text ++ rest) = (tokens? rest).map (tokens ++ ·)

namespace Spells

theorem nil : Spells [] [] := by
  intro rest _
  exact Option.map_id'.symm

theorem space (space : isSpace c = true) (spells : Spells text tokens) :
    Spells (c :: text) tokens := by
  intro rest ends
  rw [List.cons_append, tokens?_space space]
  exact spells rest ends

/-- A first token that needs to know nothing of what comes after it. -/
theorem lexeme (visible : isSpace c = false)
    (lexed : ∀ rest, lexeme? c (more ++ rest) = some (token, rest)) (spells : Spells text tokens) :
    Spells (c :: (more ++ text)) (token :: tokens) := by
  intro rest ends
  rw [List.cons_append, List.append_assoc, tokens?_lexeme visible (lexed (text ++ rest)),
    spells rest ends, Option.map_map]
  rfl

theorem mark (visible : isSpace c = false) (mark : punctuation? c = some token)
    (spells : Spells text tokens) : Spells (c :: text) (token :: tokens) := by
  have lexed (rest : List Char) : lexeme? c ([] ++ rest) = some (token, rest) := by
    unfold lexeme?
    rw [mark]
    rfl
  exact lexeme visible lexed spells

theorem word (visible : isSpace c = false)
    (lexed : ∀ rest, lexeme? c (more ++ rest) = some (token, rest)) :
    Spells (c :: more) [token] := by
  have alone := lexeme visible lexed nil
  rw [List.append_nil] at alone
  exact alone

theorem append (first : Spells text tokens) (second : Spells more others)
    (ends : ∀ rest, EndsNumber (more ++ rest)) : Spells (text ++ more) (tokens ++ others) := by
  intro rest follows
  rw [List.append_assoc, first _ (ends rest), second rest follows, Option.map_map]
  refine congrArg (Option.map · (tokens? rest)) (funext fun found => ?_)
  exact (List.append_assoc tokens others found).symm

end Spells

/-! ### Strings -/

theorem hexDigit?_hexDigit : ∀ value < 16, hexDigit? (hexDigit value) = some value := by
  decide

theorem codeUnit?_control (control : c.toNat < 0x20) :
    codeUnit? '0' '0' (hexDigit (c.toNat / 16)) (hexDigit (c.toNat % 16)) = some c.toNat := by
  have zero : hexDigit? '0' = some 0 := by decide
  have high := hexDigit?_hexDigit (c.toNat / 16) (by omega)
  have low := hexDigit?_hexDigit (c.toNat % 16) (by omega)
  have total : ((0 * 16 + 0) * 16 + c.toNat / 16) * 16 + c.toNat % 16 = c.toNat := by omega
  unfold codeUnit?
  rw [zero, high, low]
  exact congrArg some total

/-- The characters that are written as a backslash and a letter or mark. -/
def namedEscapes : List Char := ['"', '\\', '\x08', '\x0c', '\n', '\r', '\t']

theorem lexString?_namedEscape :
    ∀ c ∈ namedEscapes, ∀ rest,
      lexString? (escape c ++ rest) = Reading.map (c :: ·) (lexString? rest) := by
  unfold namedEscapes
  simp only [List.forall_mem_cons]
  exact ⟨fun _ => rfl, fun _ => rfl, fun _ => rfl, fun _ => rfl, fun _ => rfl, fun _ => rfl,
    fun _ => rfl, nofun⟩

theorem escape_of_unnamed (unnamed : c ∉ namedEscapes) :
    escape c = if c.toNat < 0x20 then
      ['\\', 'u', '0', '0', hexDigit (c.toNat / 16), hexDigit (c.toNat % 16)] else [c] := by
  simp only [namedEscapes, List.mem_cons, List.not_mem_nil, or_false, not_or] at unnamed
  obtain ⟨quote, backslash, backspace, feed, line, back, tab⟩ := unnamed
  simp only [escape, quote, backslash, backspace, feed, line, back, tab, ↓reduceIte]

/-- What stands for a character in a string is read as that character. -/
theorem lexString?_escape (c : Char) (rest : List Char) :
    lexString? (escape c ++ rest) = Reading.map (c :: ·) (lexString? rest) := by
  by_cases named : c ∈ namedEscapes
  · exact lexString?_namedEscape c named rest
  rw [escape_of_unnamed named]
  by_cases control : c.toNat < 0x20
  · have high : isHighSurrogate c.toNat = false := by
      unfold isHighSurrogate
      rw [Bool.and_eq_false_iff, decide_eq_false_iff_not]
      omega
    have low : isLowSurrogate c.toNat = false := by
      unfold isLowSurrogate
      rw [Bool.and_eq_false_iff, decide_eq_false_iff_not]
      omega
    rw [if_pos control, List.cons_append, lexString?.eq_def]
    simp only [List.cons_append, List.nil_append, codeUnit?_control control, high, low,
      Bool.false_eq_true, ↓reduceIte, Char.ofNat_toNat, Char.reduceEq]
  · have quote : c ≠ '"' := fun same => named (same ▸ List.mem_cons_self)
    have backslash : c ≠ '\\' := fun same =>
      named (same ▸ List.mem_cons_of_mem _ List.mem_cons_self)
    rw [if_neg control, List.singleton_append, lexString?.eq_def]
    simp only [quote, backslash, control, ↓reduceIte]

theorem lexString?_escaped (content rest : List Char) :
    lexString? (content.flatMap escape ++ '"' :: rest) = some (content, rest) := by
  induction content with
  | nil =>
      rw [List.flatMap_nil, List.nil_append, lexString?.eq_def]
      rfl
  | cons c content ih =>
      rw [List.flatMap_cons, List.append_assoc, lexString?_escape, ih]
      rfl

theorem Spells.quoted (content : String) (spells : Spells text tokens) :
    Spells (quoted content ++ text) (.string content :: tokens) := by
  refine lexeme rfl (fun rest => ?_) spells
  have read : lexeme? '"' (content.toList.flatMap escape ++ '"' :: rest) =
      Reading.map (fun text => .string (String.ofList text))
        (lexString? (content.toList.flatMap escape ++ '"' :: rest)) := rfl
  rw [List.append_assoc, List.singleton_append, read, lexString?_escaped, Reading.map,
    String.ofList_toList]

theorem spells_string (content : String) : Spells (quoted content) [.string content] := by
  have alone := Spells.nil.quoted content
  rw [List.append_nil] at alone
  exact alone

/-! ### Numbers -/

theorem EndsNumber.isDigit_eq_false (ends : EndsNumber rest) :
    ∀ c ∈ rest.head?, c.isDigit = false := by
  intro c first
  cases rest with
  | nil => cases first
  | cons head rest =>
      cases first
      simp only [EndsNumber, goesOn, Bool.or_eq_false_iff] at ends
      exact ends.1.1.1

theorem lexWhole?_decimalDigits (ends : EndsNumber rest) (ones : Nat) :
    lexWhole? (decimalDigits ones ++ rest) = some (decimalDigits ones, rest) := by
  have digital (c : Char) (present : c ∈ decimalDigits ones) : c.isDigit = true :=
    isDigit_of_mem_decimalDigits present
  have taken := takeDigits_append digital ends.isDigit_eq_false
  unfold lexWhole?
  rw [taken]
  dsimp only
  cases digits : decimalDigits ones with
  | nil => exact absurd digits Nat.toDigits_ne_nil
  | cons first more =>
      have noLeadingZero : (first = '0' && !more.isEmpty) = false := by
        by_cases positive : 0 < ones
        · have apart := head?_decimalDigits positive
          rw [digits, List.head?_cons, ne_eq, Option.some.injEq] at apart
          rw [decide_eq_false apart, Bool.false_and]
        · have zero : decimalDigits ones = ['0'] := by
            rw [Nat.eq_zero_of_not_pos positive]
            rfl
          rw [digits, List.cons.injEq] at zero
          rw [zero.2, List.isEmpty_nil, Bool.not_true, Bool.and_false]
      dsimp only
      rw [noLeadingZero]
      rfl

theorem lexFraction?_of_ends (ends : EndsNumber rest) : lexFraction? rest = some ([], rest) := by
  cases rest with
  | nil => rfl
  | cons c rest =>
      simp only [EndsNumber, goesOn, Bool.or_eq_false_iff, beq_eq_false_iff_ne] at ends
      rw [lexFraction?, if_neg ends.1.1.2]

theorem lexExponent?_of_ends (ends : EndsNumber rest) : lexExponent? rest = some (0, rest) := by
  cases rest with
  | nil => rfl
  | cons c rest =>
      simp only [EndsNumber, goesOn, Bool.or_eq_false_iff, beq_eq_false_iff_ne] at ends
      simp [lexExponent?, ends.1.2, ends.2]

/-- Digits that nothing goes on with are read as the number that they denote. -/
theorem lexNumber?_decimalDigits (ends : EndsNumber rest) {negative : Bool} {ones : Nat}
    (short : ones ≤ Number.wholeLimit) :
    lexNumber? negative (decimalDigits ones ++ rest) = some (.ofRatio negative ones 1, rest) := by
  have digits : digitsValue (decimalDigits ones ++ []) = ones := by
    rw [List.append_nil, digitsValue_decimalDigits]
  have bits : digitsValue (decimalDigits ones ++ []) ≤ Nat.pow 2 53 := by
    rw [digits]
    exact Nat.le_trans short (by decide)
  have value : (Decimal.ofFitting negative (decimalDigits ones) [] 0).scaled? =
      some (.ofRatio negative ones 1) := by
    rw [Decimal.scaled?_ofFitting bits (by decide), Decimal.ofDigits, digits]
    exact congrArg some (Number.toNumber_integer negative ones)
  unfold lexNumber?
  rw [lexWhole?_decimalDigits ends]
  dsimp only
  rw [lexFraction?_of_ends ends]
  dsimp only
  rw [lexExponent?_of_ends ends]
  dsimp only
  rw [value, Option.map_some]

theorem ne_of_isDigit (digit : c.isDigit = true) {other : Char} (mark : other.isDigit = false) :
    c ≠ other := by
  rintro rfl
  rw [digit] at mark
  cases mark

theorem isSpace_digit (digit : c.isDigit = true) : isSpace c = false := by
  unfold isSpace
  simp only [ne_of_isDigit digit (rfl : Char.isDigit ' ' = false),
    ne_of_isDigit digit (rfl : Char.isDigit '\t' = false),
    ne_of_isDigit digit (rfl : Char.isDigit '\n' = false),
    ne_of_isDigit digit (rfl : Char.isDigit '\r' = false), decide_false, Bool.or_false]

theorem lexeme?_digit (digit : c.isDigit = true) (rest : List Char) :
    lexeme? c rest = Reading.map .number (lexNumber? false (c :: rest)) := by
  have apart {other : Char} (mark : other.isDigit = false) : c ≠ other :=
    ne_of_isDigit digit mark
  have noMark : punctuation? c = none := by
    unfold punctuation?
    rw [if_neg (apart rfl), if_neg (apart rfl), if_neg (apart rfl), if_neg (apart rfl),
      if_neg (apart rfl), if_neg (apart rfl)]
  unfold lexeme?
  rw [noMark]
  dsimp only
  rw [if_neg (apart rfl), if_neg (apart rfl), if_neg (apart rfl), if_neg (apart rfl),
    if_neg (apart rfl), if_pos digit]

theorem spells_number {number : Number} {value : Int} (whole : number.whole? = some value) :
    Spells number.jsonText [.number number.plain] := by
  have counts := Number.integer?_of_whole? whole
  have read : Number.ofInt value = number.plain := Number.ofInt_of_integer? counts
  have short : value.natAbs ≤ Number.wholeLimit := Number.natAbs_le_of_whole? whole
  rw [Number.jsonText_of_whole whole, ← read]
  unfold Number.ofInt integerText signed
  intro rest ends
  by_cases negative : value < 0
  · rw [decide_eq_true negative]
    have lexed : lexeme? '-' (decimalDigits value.natAbs ++ rest) =
        Reading.map .number (lexNumber? true (decimalDigits value.natAbs ++ rest)) := rfl
    rw [lexNumber?_decimalDigits ends short] at lexed
    exact tokens?_lexeme rfl lexed
  · rw [decide_eq_false negative]
    cases digits : decimalDigits value.natAbs with
    | nil => exact absurd digits Nat.toDigits_ne_nil
    | cons first more =>
        have digit : first.isDigit = true :=
          isDigit_of_mem_decimalDigits (digits ▸ List.mem_cons_self)
        have lexed := lexeme?_digit digit (more ++ rest)
        rw [← List.cons_append, ← digits, lexNumber?_decimalDigits ends short] at lexed
        exact tokens?_lexeme (isSpace_digit digit) lexed

end Json

end DesignTokens
