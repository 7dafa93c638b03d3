/-
The tokens of a text, one after another.

Cutting a text passes over spaces and takes lexeme after lexeme. Every number
among the tokens is finite, since a numeral that grows too large while it is read
is no lexeme.
-/
import DesignTokens.Json.Token

namespace DesignTokens

namespace Json

variable {c : Char} {text rest after : List Char} {token : Token} {tokens : List Token}

/-! ### Cutting off the first token -/

theorem tokens?_space (space : isSpace c = true) : tokens? (c :: rest) = tokens? rest := by
  rw [tokens?, if_pos space]

theorem tokens?_visible (visible : isSpace c = false) :
    tokens? (c :: rest) =
      (lexeme? c rest).bind fun (first, after) => (tokens? after).map (first :: ·) := by
  rw [tokens?, visible]
  simp only [Bool.false_eq_true, ↓reduceIte]
  split <;> rename_i found <;> rw [found] <;> rfl

theorem tokens?_lexeme (visible : isSpace c = false)
    (lexed : lexeme? c rest = some (token, after)) :
    tokens? (c :: rest) = (tokens? after).map (token :: ·) := by
  rw [tokens?_visible visible, lexed]
  rfl

/-! ### Numbers are finite -/

/-- The token is not a number, or it is a finite one. -/
def Token.Finite (token : Token) : Prop :=
  ∀ value, token = .number value → value.isFinite = true

theorem isFinite_of_lexNumber? {negative : Bool} {value : Number}
    (lexed : lexNumber? negative text = some (value, rest)) : value.isFinite = true := by
  unfold lexNumber? at lexed
  split at lexed
  · cases lexed
  · split at lexed
    · cases lexed
    · split at lexed
      · cases lexed
      · obtain ⟨_, scaled, same⟩ := Option.map_eq_some_iff.mp lexed
        obtain ⟨magnitude, -, isFinite⟩ := Option.map_eq_some_iff.mp scaled
        cases same
        rw [← isFinite]
        rfl

theorem finite_of_punctuation? (mark : punctuation? c = some token) : token.Finite := by
  rintro value rfl
  unfold punctuation? at mark
  grind

theorem finite_of_lexeme? (lexed : lexeme? c text = some (token, rest)) : token.Finite := by
  unfold lexeme? at lexed
  split at lexed
  · rename_i mark
    cases lexed
    exact finite_of_punctuation? mark
  · -- Of the lexemes that are left, those with a number were read by `lexNumber?`.
    rintro value rfl
    grind [Reading.map_eq_some_iff, isFinite_of_lexNumber?]

theorem finite_of_tokens? (lexed : tokens? text = some tokens) :
    ∀ token ∈ tokens, token.Finite := by
  induction text using tokens?.induct generalizing tokens with
  | case1 =>
      rw [tokens?] at lexed
      cases lexed
      exact fun _ present => absurd present List.not_mem_nil
  | case2 c rest space ih =>
      rw [tokens?_space space] at lexed
      exact ih lexed
  | case3 c rest visible failed =>
      rw [tokens?_visible (Bool.eq_false_iff.mpr visible), failed] at lexed
      cases lexed
  | case4 c rest visible token after first ih =>
      rw [tokens?_lexeme (Bool.eq_false_iff.mpr visible) first] at lexed
      obtain ⟨others, later, rfl⟩ := Option.map_eq_some_iff.mp lexed
      exact List.forall_mem_cons.mpr ⟨finite_of_lexeme? first, ih later⟩

end Json

end DesignTokens
