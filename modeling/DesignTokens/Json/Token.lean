/-
The lexical tokens of JSON text.

A text is cut into brackets, commas, colons, strings, numbers and literals;
only space, tab, line feed and carriage return may stand between them. A string
holds no raw control character and no lone or wrongly paired surrogate escape.
Numbers are read by their significand; one that grows too large is refused, and
one that comes below the smallest is zero.

Each lexeme leaves a rest that is no longer than the text it was read from, so
cutting a text ends.
-/
import DesignTokens.Number.Significand

namespace DesignTokens

namespace Json

inductive Token
  | openArray
  | closeArray
  | openObject
  | closeObject
  | comma
  | colon
  | string (text : String)
  | number (value : Number)
  | bool (flag : Bool)
  | null

def isSpace (c : Char) : Bool :=
  c = ' ' || c = '\t' || c = '\n' || c = '\r'

/-! ### Strings -/

def hexDigit? (c : Char) : Option Nat :=
  if '0' ≤ c ∧ c ≤ '9' then some (c.toNat - '0'.toNat)
  else if 'a' ≤ c ∧ c ≤ 'f' then some (c.toNat - 'a'.toNat + 10)
  else if 'A' ≤ c ∧ c ≤ 'F' then some (c.toNat - 'A'.toNat + 10)
  else none

def codeUnit? (a b c d : Char) : Option Nat :=
  match hexDigit? a, hexDigit? b, hexDigit? c, hexDigit? d with
  | some a, some b, some c, some d => some (((a * 16 + b) * 16 + c) * 16 + d)
  | _, _, _, _ => none

def isHighSurrogate (unit : Nat) : Bool := 0xD800 ≤ unit && unit < 0xDC00

def isLowSurrogate (unit : Nat) : Bool := 0xDC00 ≤ unit && unit < 0xE000

def pairedChar (high low : Nat) : Char :=
  Char.ofNat (0x10000 + (high - 0xD800) * 0x400 + (low - 0xDC00))

def escapedChar? (c : Char) : Option Char :=
  if c = '"' then some '"'
  else if c = '\\' then some '\\'
  else if c = '/' then some '/'
  else if c = 'b' then some '\x08'
  else if c = 'f' then some '\x0c'
  else if c = 'n' then some '\n'
  else if c = 'r' then some '\r'
  else if c = 't' then some '\t'
  else none

def Reading.map {α β : Type} (change : α → β) :
    Option (α × List Char) → Option (β × List Char)
  | some (result, rest) => some (change result, rest)
  | none => none

def lexString? : List Char → Option (List Char × List Char)
  | [] => none
  | c :: rest =>
    if c = '"' then some ([], rest)
    else if c = '\\' then
      match rest with
      | 'u' :: h₁ :: h₂ :: h₃ :: h₄ :: rest =>
        match codeUnit? h₁ h₂ h₃ h₄ with
        | none => none
        | some unit =>
          if isHighSurrogate unit then
            match rest with
            | '\\' :: 'u' :: l₁ :: l₂ :: l₃ :: l₄ :: rest =>
              match codeUnit? l₁ l₂ l₃ l₄ with
              | none => none
              | some low =>
                if isLowSurrogate low then
                  Reading.map (pairedChar unit low :: ·) (lexString? rest)
                else none
            | _ => none
          else if isLowSurrogate unit then none
          else Reading.map (Char.ofNat unit :: ·) (lexString? rest)
      | letter :: rest =>
        match escapedChar? letter with
        | none => none
        | some char => Reading.map (char :: ·) (lexString? rest)
      | [] => none
    else if c.toNat < 0x20 then none
    else Reading.map (c :: ·) (lexString? rest)

/-! ### Numbers -/

/-- The whole part of a number: digits, without a leading zero before others. -/
def lexWhole? (text : List Char) : Option (List Char × List Char) :=
  let digits := takeDigits text
  match digits.1 with
  | [] => none
  | first :: more => if first = '0' && !more.isEmpty then none else some digits

def lexFraction? : List Char → Option (List Char × List Char)
  | [] => some ([], [])
  | c :: rest =>
    if c = '.' then
      let digits := takeDigits rest
      if digits.1.isEmpty then none else some digits
    else some ([], c :: rest)

def lexExponent? : List Char → Option (Int × List Char)
  | [] => some (0, [])
  | c :: rest =>
    if c = 'e' || c = 'E' then
      let sign := takeSign rest
      let digits := takeDigits sign.2
      let value : Int := digitsValue digits.1
      if digits.1.isEmpty then none
      else some (if sign.1 then -value else value, digits.2)
    else some (0, c :: rest)

def lexNumber? (negative : Bool) (text : List Char) : Option (Number × List Char) :=
  match lexWhole? text with
  | none => none
  | some (whole, rest) =>
    match lexFraction? rest with
    | none => none
    | some (fraction, rest) =>
      match lexExponent? rest with
      | none => none
      | some (exponent, rest) =>
        (Decimal.ofFitting negative whole fraction exponent).scaled?.map fun value =>
          (value, rest)

/-! ### Lexemes -/

def lexWord? : List Char → List Char → Option (Unit × List Char)
  | [], text => some ((), text)
  | _ :: _, [] => none
  | expected :: word, c :: text => if c = expected then lexWord? word text else none

def punctuation? (c : Char) : Option Token :=
  if c = '[' then some .openArray
  else if c = ']' then some .closeArray
  else if c = '{' then some .openObject
  else if c = '}' then some .closeObject
  else if c = ',' then some .comma
  else if c = ':' then some .colon
  else none

def lexeme? (c : Char) (rest : List Char) : Option (Token × List Char) :=
  if let some token := punctuation? c then some (token, rest)
  else if c = '"' then Reading.map (fun text => .string (String.ofList text)) (lexString? rest)
  else if c = 't' then Reading.map (fun _ => .bool true) (lexWord? ['r', 'u', 'e'] rest)
  else if c = 'f' then Reading.map (fun _ => .bool false) (lexWord? ['a', 'l', 's', 'e'] rest)
  else if c = 'n' then Reading.map (fun _ => .null) (lexWord? ['u', 'l', 'l'] rest)
  else if c = '-' then Reading.map .number (lexNumber? true rest)
  else if c.isDigit then Reading.map .number (lexNumber? false (c :: rest))
  else none

/-! ### Every lexeme shortens the text -/

theorem Reading.map_eq_some_iff {α β : Type} {change : α → β} {reading : Option (α × List Char)}
    {result : β} {rest : List Char} :
    Reading.map change reading = some (result, rest) ↔
      ∃ before, reading = some (before, rest) ∧ change before = result := by
  cases reading with
  | none => simp [Reading.map]
  | some pair =>
    obtain ⟨before, after⟩ := pair
    constructor
    · intro mapped
      simp only [Reading.map, Option.some.injEq, Prod.mk.injEq] at mapped
      exact ⟨before, by simp [mapped.2], mapped.1⟩
    · rintro ⟨same, equal, changed⟩
      simp only [Option.some.injEq, Prod.mk.injEq] at equal
      simp [Reading.map, equal.1, equal.2, changed]

theorem takeDigits_length_le (text : List Char) : (takeDigits text).2.length ≤ text.length :=
  (List.dropWhile_sublist _).length_le

theorem takeSign_length_le (text : List Char) : (takeSign text).2.length ≤ text.length := by
  cases text with
  | nil => simp [takeSign]
  | cons c rest =>
    simp only [takeSign]
    split
    · simp
    · split <;> simp

theorem lexString?_length_le {text content rest : List Char}
    (reading : lexString? text = some (content, rest)) : rest.length ≤ text.length := by
  fun_induction lexString? text generalizing content
  case case2 =>
    simp only [Option.some.injEq, Prod.mk.injEq] at reading
    simp [reading.2]
  all_goals simp only [Reading.map_eq_some_iff, reduceCtorEq] at reading
  all_goals
    obtain ⟨before, shorter, -⟩ := reading
    rename_i ih
    have := ih shorter
    simp only [List.length_cons]
    omega

theorem lexWhole?_length_le {text digits rest : List Char}
    (reading : lexWhole? text = some (digits, rest)) :
    rest.length + 1 ≤ text.length := by
  have parts : (takeDigits text).1 ++ (takeDigits text).2 = text :=
    List.takeWhile_append_dropWhile
  have total := congrArg List.length parts
  rw [List.length_append] at total
  unfold lexWhole? at reading
  grind

theorem lexFraction?_length_le {text digits rest : List Char}
    (reading : lexFraction? text = some (digits, rest)) : rest.length ≤ text.length := by
  cases text with
  | nil => grind [lexFraction?]
  | cons c tail =>
    have := takeDigits_length_le tail
    grind [lexFraction?]

theorem lexExponent?_length_le {text rest : List Char} {value : Int}
    (reading : lexExponent? text = some (value, rest)) : rest.length ≤ text.length := by
  cases text with
  | nil => grind [lexExponent?]
  | cons c tail =>
    have := takeSign_length_le tail
    have := takeDigits_length_le (takeSign tail).2
    grind [lexExponent?]

theorem lexNumber?_length_le {negative : Bool} {text rest : List Char} {value : Number}
    (reading : lexNumber? negative text = some (value, rest)) :
    rest.length + 1 ≤ text.length := by
  unfold lexNumber? at reading
  split at reading
  · contradiction
  · rename_i whole afterWhole readWhole
    have := lexWhole?_length_le readWhole
    split at reading
    · contradiction
    · rename_i fraction afterFraction readFraction
      have := lexFraction?_length_le readFraction
      split at reading
      · contradiction
      · rename_i exponent afterExponent readExponent
        have := lexExponent?_length_le readExponent
        obtain ⟨number, _, same⟩ := Option.map_eq_some_iff.mp reading
        simp only [Prod.mk.injEq] at same
        rw [← same.2]
        omega

theorem lexWord?_length_le {word text rest : List Char}
    (reading : lexWord? word text = some ((), rest)) : rest.length ≤ text.length := by
  fun_induction lexWord? word text with
  | case1 text => simp_all
  | case2 => contradiction
  | case3 word c text ih => exact Nat.le_succ_of_le (ih reading)
  | case4 => contradiction

theorem lexeme?_length_le {c : Char} {text rest : List Char} {token : Token}
    (reading : lexeme? c text = some (token, rest)) : rest.length ≤ text.length := by
  unfold lexeme? at reading
  split at reading
  · simp only [Option.some.injEq, Prod.mk.injEq] at reading
    simp [reading.2]
  · split at reading
    · obtain ⟨_, lexed, _⟩ := Reading.map_eq_some_iff.mp reading
      exact lexString?_length_le lexed
    · split at reading
      · obtain ⟨_, lexed, _⟩ := Reading.map_eq_some_iff.mp reading
        exact lexWord?_length_le lexed
      · split at reading
        · obtain ⟨_, lexed, _⟩ := Reading.map_eq_some_iff.mp reading
          exact lexWord?_length_le lexed
        · split at reading
          · obtain ⟨_, lexed, _⟩ := Reading.map_eq_some_iff.mp reading
            exact lexWord?_length_le lexed
          · split at reading
            · obtain ⟨_, lexed, _⟩ := Reading.map_eq_some_iff.mp reading
              exact Nat.le_of_succ_le (lexNumber?_length_le lexed)
            · split at reading
              · obtain ⟨_, lexed, _⟩ := Reading.map_eq_some_iff.mp reading
                exact Nat.le_of_succ_le_succ (lexNumber?_length_le lexed)
              · contradiction

/-! ### The tokens of a text -/

def tokens? : List Char → Option (List Token)
  | [] => some []
  | c :: rest =>
    if isSpace c then tokens? rest
    else
      match _lexed : lexeme? c rest with
      | none => none
      | some (token, after) => (tokens? after).map (token :: ·)
termination_by text => text.length
decreasing_by
  · simp
  · have := lexeme?_length_le _lexed
    simp only [List.length_cons]
    omega

end Json

end DesignTokens
