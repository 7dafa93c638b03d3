/-
The two variants of a theme.
-/
import DesignTokens.Source.Builtin
import DesignTokens.Text.Blank

namespace DesignTokens

inductive ThemeVariant
  | light
  | dark
deriving DecidableEq

namespace ThemeVariant

/-- The name of a variant, which is also the name of its built-in source. -/
def name : ThemeVariant → String
  | .light => lightName
  | .dark => darkName

def toggle : ThemeVariant → ThemeVariant
  | .light => .dark
  | .dark => .light

def all : List ThemeVariant := [.light, .dark]

def default : ThemeVariant := .light

/-- A name as it is compared: without blanks at its ends, ASCII letters in lower case. -/
def foldName (text : String) : String :=
  String.ofList ((trimBlank text.toList).map Char.toLower)

def ofName? (text : String) : Option ThemeVariant :=
  let folded := foldName text
  if folded = lightName then some .light
  else if folded = darkName then some .dark
  else none

def unknownMessage (text : String) : String :=
  s!"unknown theme variant `{foldName text}` (expected light or dark)"

def selector : ThemeVariant → String
  | .light => ":root"
  | .dark => "[data-theme=\"" ++ darkName ++ "\"]"

end ThemeVariant

end DesignTokens
