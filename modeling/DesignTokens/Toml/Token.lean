/-
The lexical tokens of a TOML document.

A document is cut into quoted strings, words, brackets, marks, blanks and line
ends. A word is a run of the characters of bare keys, numbers and date-times; a
date, one space and a digit go on as the same word. Comments are left out, but
must not hold control characters.

Each lexeme leaves a rest that is no longer than the text it was read from, so
cutting a document ends.
-/
import DesignTokens.Json.Token
import DesignTokens.Toml.Writer

namespace DesignTokens

namespace Toml

open Json (Reading.map Reading.map_eq_some_iff hexDigit? codeUnit?)

inductive Token
  | openBracket
  | closeBracket
  | openBrace
  | closeBrace
  | comma
  | equals
  | lineEnd
  | blank
  | string (text : String)
  | lines (text : String)
  | word (text : List Char)

def isSpace (c : Char) : Bool := c = ' ' || c = '\t'

def isWordChar (c : Char) : Bool := isBareKeyChar c || c = '.' || c = '+' || c = ':'

/-! ### Quoted strings -/

def scalar? (code : Nat) : Option Char :=
  if code.isValidChar then some (Char.ofNat code) else none

def escapedChar? (c : Char) : Option Char :=
  if c = 'b' then some '\x08'
  else if c = 't' then some '\t'
  else if c = 'n' then some '\n'
  else if c = 'f' then some '\x0c'
  else if c = 'r' then some '\r'
  else if c = '"' then some '"'
  else if c = '\\' then some '\\'
  else none

def lexEscape? : List Char → Option (Char × List Char)
  | 'u' :: a :: b :: c :: d :: rest =>
    ((codeUnit? a b c d).bind scalar?).map fun char => (char, rest)
  | 'U' :: a :: b :: c :: d :: e :: f :: g :: h :: rest =>
    match codeUnit? a b c d, codeUnit? e f g h with
    | some high, some low => (scalar? (high * 0x10000 + low)).map fun char => (char, rest)
    | _, _ => none
  | letter :: rest => (escapedChar? letter).map fun char => (char, rest)
  | [] => none

theorem lexEscape?_length_lt {text rest : List Char} {char : Char}
    (reading : lexEscape? text = some (char, rest)) : rest.length < text.length := by
  unfold lexEscape? at reading
  split at reading
  · obtain ⟨_, _, same⟩ := Option.map_eq_some_iff.mp reading
    simp only [Prod.mk.injEq] at same
    simp only [List.length_cons, ← same.2]
    omega
  · split at reading
    · obtain ⟨_, _, same⟩ := Option.map_eq_some_iff.mp reading
      simp only [Prod.mk.injEq] at same
      simp only [List.length_cons, ← same.2]
      omega
    · contradiction
  · obtain ⟨_, _, same⟩ := Option.map_eq_some_iff.mp reading
    simp only [Prod.mk.injEq] at same
    simp only [List.length_cons, ← same.2]
    omega
  · contradiction

def lexBasic? : List Char → Option (List Char × List Char)
  | [] => none
  | c :: rest =>
    if c = '"' then some ([], rest)
    else if c = '\\' then
      match _escaped : lexEscape? rest with
      | none => none
      | some (char, after) => Reading.map (char :: ·) (lexBasic? after)
    else if isHardControl c then none
    else Reading.map (c :: ·) (lexBasic? rest)
termination_by text => text.length
decreasing_by
  · have := lexEscape?_length_lt _escaped
    simp only [List.length_cons]
    omega
  · simp

def lexLiteral? : List Char → Option (List Char × List Char)
  | [] => none
  | c :: rest =>
    if c = '\'' then some ([], rest)
    else if isHardControl c then none
    else Reading.map (c :: ·) (lexLiteral? rest)

/-- The marks after the three that close a text of several lines which still belong to it: at
most two. -/
def closingMarks (mark : Char) : List Char → List Char × List Char
  | [] => ([], [])
  | [c] => if c = mark then ([mark], []) else ([], [c])
  | c :: d :: rest =>
    if c = mark then
      if d = mark then ([mark, mark], rest) else ([mark], d :: rest)
    else ([], c :: d :: rest)

def endsLine (text : List Char) : Bool :=
  match text.dropWhile isSpace with
  | '\n' :: _ => true
  | '\r' :: '\n' :: _ => true
  | _ => false

/-- The characters of a text between three double quotes up to the closing ones, and the rest.
While `skipping`, after a backslash at the end of a line, blanks and line ends are left out. -/
def lexBasicLines? (skipping : Bool) : List Char → Option (List Char × List Char)
  | [] => none
  | '"' :: '"' :: '"' :: rest => some (closingMarks '"' rest)
  | '\r' :: '\n' :: rest =>
    if skipping then lexBasicLines? true rest
    else Reading.map ('\n' :: ·) (lexBasicLines? false rest)
  | c :: rest =>
    if c = '\n' then
      if skipping then lexBasicLines? true rest
      else Reading.map ('\n' :: ·) (lexBasicLines? false rest)
    else if skipping && isSpace c then lexBasicLines? true rest
    else if c = '\\' then
      if endsLine rest then lexBasicLines? true rest
      else
        match _escaped : lexEscape? rest with
        | none => none
        | some (char, after) => Reading.map (char :: ·) (lexBasicLines? false after)
    else if isHardControl c then none
    else Reading.map (c :: ·) (lexBasicLines? false rest)
termination_by text => text.length
decreasing_by
  all_goals try have := lexEscape?_length_lt _escaped
  all_goals simp only [List.length_cons]
  all_goals omega

def lexLiteralLines? : List Char → Option (List Char × List Char)
  | [] => none
  | '\'' :: '\'' :: '\'' :: rest => some (closingMarks '\'' rest)
  | '\r' :: '\n' :: rest => Reading.map ('\n' :: ·) (lexLiteralLines? rest)
  | c :: rest =>
    if isHardControl c && c ≠ '\n' then none
    else Reading.map (c :: ·) (lexLiteralLines? rest)

def dropLineEnd : List Char → List Char
  | '\n' :: rest => rest
  | '\r' :: '\n' :: rest => rest
  | text => text

def lexDoubleQuoted? : List Char → Option (Token × List Char)
  | '"' :: '"' :: rest =>
    Reading.map (fun text => .lines (String.ofList text)) (lexBasicLines? false (dropLineEnd rest))
  | text => Reading.map (fun text => .string (String.ofList text)) (lexBasic? text)

def lexSingleQuoted? : List Char → Option (Token × List Char)
  | '\'' :: '\'' :: rest =>
    Reading.map (fun text => .lines (String.ofList text)) (lexLiteralLines? (dropLineEnd rest))
  | text => Reading.map (fun text => .string (String.ofList text)) (lexLiteral? text)

/-! ### Words, blanks and comments -/

/-- Whether a word has the shape of a date: four, two and two digits with dashes between. -/
def isDateShape : List Char → Bool
  | [y₁, y₂, y₃, y₄, d₁, m₁, m₂, d₂, t₁, t₂] =>
    [y₁, y₂, y₃, y₄, m₁, m₂, t₁, t₂].all Char.isDigit && d₁ = '-' && d₂ = '-'
  | _ => false

def lexWord (text : List Char) : List Char × List Char :=
  let word := text.takeWhile isWordChar
  let rest := text.dropWhile isWordChar
  match rest with
  | ' ' :: digit :: more =>
    if isDateShape word && digit.isDigit then
      (word ++ ' ' :: (digit :: more).takeWhile isWordChar, (digit :: more).dropWhile isWordChar)
    else (word, rest)
  | _ => (word, rest)

/-- The text after a comment, which reaches to the end of its line; absent when the comment
holds a control character. -/
def afterComment? (text : List Char) : Option (List Char) :=
  let rest := text.dropWhile fun c => !isHardControl c
  match rest with
  | [] => some []
  | '\n' :: _ => some rest
  | '\r' :: '\n' :: _ => some rest
  | _ => none

def mark? (c : Char) : Option Token :=
  if c = '[' then some .openBracket
  else if c = ']' then some .closeBracket
  else if c = '{' then some .openBrace
  else if c = '}' then some .closeBrace
  else if c = ',' then some .comma
  else if c = '=' then some .equals
  else if c = '\n' then some .lineEnd
  else none

def lexeme? (c : Char) (rest : List Char) : Option (Token × List Char) :=
  if let some token := mark? c then some (token, rest)
  else if c = '\r' then
    match rest with
    | '\n' :: after => some (.lineEnd, after)
    | _ => none
  else if isSpace c then some (.blank, rest.dropWhile isSpace)
  else if c = '#' then (afterComment? rest).map fun after => (.blank, after)
  else if c = '"' then lexDoubleQuoted? rest
  else if c = '\'' then lexSingleQuoted? rest
  else if isWordChar c then
    let word := lexWord (c :: rest)
    some (.word word.1, word.2)
  else none

/-! ### Every lexeme shortens the text -/

theorem lexBasic?_length_le {text content rest : List Char}
    (reading : lexBasic? text = some (content, rest)) : rest.length ≤ text.length := by
  fun_induction lexBasic? text generalizing content
  case case2 =>
    simp only [Option.some.injEq, Prod.mk.injEq] at reading
    simp [reading.2]
  case case4 tail char after escaped _ ih =>
    obtain ⟨_, shorter, -⟩ := Reading.map_eq_some_iff.mp reading
    have := ih shorter
    have := lexEscape?_length_lt escaped
    simp only [List.length_cons]
    omega
  case case6 c tail _ _ _ ih =>
    obtain ⟨_, shorter, -⟩ := Reading.map_eq_some_iff.mp reading
    have := ih shorter
    simp only [List.length_cons]
    omega
  all_goals contradiction

theorem lexLiteral?_length_le {text content rest : List Char}
    (reading : lexLiteral? text = some (content, rest)) : rest.length ≤ text.length := by
  fun_induction lexLiteral? text generalizing content
  case case2 =>
    simp only [Option.some.injEq, Prod.mk.injEq] at reading
    simp [reading.2]
  case case4 c tail _ _ ih =>
    obtain ⟨_, shorter, -⟩ := Reading.map_eq_some_iff.mp reading
    have := ih shorter
    simp only [List.length_cons]
    omega
  all_goals contradiction

theorem closingMarks_length_le (mark : Char) (text : List Char) :
    (closingMarks mark text).2.length ≤ text.length := by
  unfold closingMarks
  split
  · simp
  · split <;> simp
  · split
    · split
      · simp only [List.length_cons]
        omega
      · simp
    · simp

theorem lexBasicLines?_length_le {skipping : Bool} {text content rest : List Char}
    (reading : lexBasicLines? skipping text = some (content, rest)) :
    rest.length ≤ text.length := by
  fun_induction lexBasicLines? skipping text generalizing content
  all_goals try contradiction
  case case2 tail =>
    have := closingMarks_length_le '"' tail
    rw [Option.some.inj reading] at this
    dsimp only at this
    simp only [List.length_cons]
    omega
  case case10 escaped _ _ _ _ ih =>
    obtain ⟨_, shorter, -⟩ := Reading.map_eq_some_iff.mp reading
    have := ih shorter
    have := lexEscape?_length_lt escaped
    simp only [List.length_cons]
    omega
  all_goals rename_i ih
  case case3 | case5 | case7 | case8 =>
    have := ih reading
    simp only [List.length_cons]
    omega
  all_goals
    obtain ⟨_, shorter, -⟩ := Reading.map_eq_some_iff.mp reading
    have := ih shorter
    simp only [List.length_cons]
    omega

theorem lexLiteralLines?_length_le {text content rest : List Char}
    (reading : lexLiteralLines? text = some (content, rest)) : rest.length ≤ text.length := by
  fun_induction lexLiteralLines? text generalizing content
  all_goals try contradiction
  case case2 tail =>
    have := closingMarks_length_le '\'' tail
    rw [Option.some.inj reading] at this
    dsimp only at this
    simp only [List.length_cons]
    omega
  all_goals
    rename_i ih
    obtain ⟨_, shorter, -⟩ := Reading.map_eq_some_iff.mp reading
    have := ih shorter
    simp only [List.length_cons]
    omega

theorem dropLineEnd_length_le (text : List Char) : (dropLineEnd text).length ≤ text.length := by
  unfold dropLineEnd
  split
  · simp
  · simp only [List.length_cons]
    omega
  · simp

theorem lexDoubleQuoted?_length_le {text rest : List Char} {token : Token}
    (reading : lexDoubleQuoted? text = some (token, rest)) : rest.length ≤ text.length := by
  unfold lexDoubleQuoted? at reading
  split at reading
  · rename_i tail
    obtain ⟨_, lexed, -⟩ := Reading.map_eq_some_iff.mp reading
    have := lexBasicLines?_length_le lexed
    have := dropLineEnd_length_le tail
    simp only [List.length_cons]
    omega
  · obtain ⟨_, lexed, -⟩ := Reading.map_eq_some_iff.mp reading
    exact lexBasic?_length_le lexed

theorem lexSingleQuoted?_length_le {text rest : List Char} {token : Token}
    (reading : lexSingleQuoted? text = some (token, rest)) : rest.length ≤ text.length := by
  unfold lexSingleQuoted? at reading
  split at reading
  · rename_i tail
    obtain ⟨_, lexed, -⟩ := Reading.map_eq_some_iff.mp reading
    have := lexLiteralLines?_length_le lexed
    have := dropLineEnd_length_le tail
    simp only [List.length_cons]
    omega
  · obtain ⟨_, lexed, -⟩ := Reading.map_eq_some_iff.mp reading
    exact lexLiteral?_length_le lexed

theorem lexWord_length_le {c : Char} {text : List Char} (starts : isWordChar c = true) :
    (lexWord (c :: text)).2.length ≤ text.length := by
  have shorter : ((c :: text).dropWhile isWordChar).length ≤ text.length := by
    rw [List.dropWhile_cons_of_pos starts]
    exact (List.dropWhile_sublist _).length_le
  unfold lexWord
  dsimp only
  split
  · rename_i digit more rest
    rw [rest, List.length_cons] at shorter
    split
    · have := (List.dropWhile_sublist (l := digit :: more) isWordChar).length_le
      dsimp only
      omega
    · dsimp only
      rw [rest, List.length_cons]
      exact shorter
  · exact shorter

theorem afterComment?_length_le {text rest : List Char}
    (reading : afterComment? text = some rest) : rest.length ≤ text.length := by
  have shorter : (text.dropWhile fun c => !isHardControl c).length ≤ text.length :=
    (List.dropWhile_sublist _).length_le
  unfold afterComment? at reading
  dsimp only at reading
  split at reading
  · obtain rfl := Option.some.inj reading
    simp
  · exact Option.some.inj reading ▸ shorter
  · exact Option.some.inj reading ▸ shorter
  · contradiction

theorem lexeme?_length_le {c : Char} {text rest : List Char} {token : Token}
    (reading : lexeme? c text = some (token, rest)) : rest.length ≤ text.length := by
  unfold lexeme? at reading
  split at reading
  · simp only [Option.some.injEq, Prod.mk.injEq] at reading
    simp [reading.2]
  · split at reading
    · split at reading
      · simp only [Option.some.injEq, Prod.mk.injEq] at reading
        simp [reading.2]
      · contradiction
    · split at reading
      · simp only [Option.some.injEq, Prod.mk.injEq] at reading
        rw [← reading.2]
        exact (List.dropWhile_sublist _).length_le
      · split at reading
        · obtain ⟨_, after, same⟩ := Option.map_eq_some_iff.mp reading
          simp only [Prod.mk.injEq] at same
          exact same.2 ▸ afterComment?_length_le after
        · split at reading
          · exact lexDoubleQuoted?_length_le reading
          · split at reading
            · exact lexSingleQuoted?_length_le reading
            · split at reading
              · rename_i starts
                simp only [Option.some.injEq, Prod.mk.injEq] at reading
                exact reading.2 ▸ lexWord_length_le starts
              · contradiction

/-! ### The tokens of a document -/

def tokens? : List Char → Option (List Token)
  | [] => some []
  | c :: rest =>
    match _lexed : lexeme? c rest with
    | none => none
    | some (token, after) => (tokens? after).map (token :: ·)
termination_by text => text.length
decreasing_by
  have := lexeme?_length_le _lexed
  simp only [List.length_cons]
  omega

end Toml

end DesignTokens
