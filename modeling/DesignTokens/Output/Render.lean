/-
Rendering the token maps of one or more themes.

JSON and TOML write the categories of a single theme at the top, and otherwise
one member for each variant, with all names in order. JSON writes null for an
undefined token; TOML has no null and leaves undefined tokens and nulls out.
The style-sheet format writes one block for each theme.
-/
import DesignTokens.Output.StyleSheet
import DesignTokens.Theme.Build
import DesignTokens.Toml.Writer

namespace DesignTokens

inductive OutputFormat
  | json
  | toml
  | css
deriving DecidableEq

def OutputFormat.name : OutputFormat → String
  | .json => "json"
  | .toml => "toml"
  | .css => "css"

def OutputFormat.ofName? (name : String) : Option OutputFormat :=
  [OutputFormat.json, .toml, .css].find? fun format => format.name == name

abbrev RenderedTheme := ThemeVariant × TokenMap

/-! ### JSON -/

/-- The value that JSON output writes for some themes, before names are ordered. -/
def themesValue : List RenderedTheme → Value
  | [(_, map)] => map.toValue
  | themes => .object (themes.map fun (variant, map) => (variant.name, map.toValue))

/-! ### TOML -/

/-- A number in TOML: an integer when it has no fractional part and fits one. -/
def tomlNumber (number : Number) : Toml.Value :=
  match number.integer? with
  | some value => if value.natAbs < Toml.integerLimit then .integer value else .float number
  | none => .float number

mutual

/-- A value in TOML; null has no form, and is left out wherever it stands. -/
def tomlValue? : Value → Option Toml.Value
  | .null => none
  | .bool flag => some (.boolean flag)
  | .number value => some (tomlNumber value)
  | .string text => some (.string text)
  | .array items => some (.array (tomlItems items))
  | .object members => some (.table (sortMembers (tomlEntries members)))

def tomlItems : List Value → List Toml.Value
  | [] => []
  | item :: rest =>
    match tomlValue? item with
    | some value => value :: tomlItems rest
    | none => tomlItems rest

def tomlEntries : List (String × Value) → Toml.Table
  | [] => []
  | (name, value) :: rest =>
    match tomlValue? value with
    | some entry => (name, entry) :: tomlEntries rest
    | none => tomlEntries rest

end

def slotTable (slots : TokenCategory) : Toml.Table :=
  sortMembers (slots.filterMap fun (key, content) =>
    (content.bind tomlValue?).map fun value => (key, value))

def mapTable (map : TokenMap) : Toml.Table :=
  sortMembers (map.categories.map fun (category, slots) => (category, .table (slotTable slots)))

def themesTable : List RenderedTheme → Toml.Table
  | [(_, map)] => mapTable map
  | themes => sortMembers (themes.map fun (variant, map) => (variant.name, .table (mapTable map)))

/-! ### The text of an output -/

def themesStyle (themes : List RenderedTheme) : String :=
  "\n".intercalate (themes.map fun (variant, map) => map.styleText variant.selector)

def render (themes : List RenderedTheme) : OutputFormat → String
  | .json => Json.writePretty (themesValue themes).sorted
  | .toml => Toml.write (themesTable themes)
  | .css => themesStyle themes

end DesignTokens
