/-
The manifest: which tokens are published, and where each is defined.

An entry names a slot by category and key, and the definition by an origin and
a path in it. The origin is the theme that is being built or a named source.
-/
import DesignTokens.Source.Builtin

namespace DesignTokens

inductive Origin
  | theme
  | source (name : String)
deriving DecidableEq

def Origin.themeName : String := "theme"

def Origin.ofName (name : String) : Origin :=
  if name = themeName then .theme else .source name

def Origin.name : Origin → String
  | .theme => themeName
  | .source name => name

structure ManifestEntry where
  category : String
  key : String
  origin : Origin
  path : String
deriving DecidableEq

structure Manifest where
  entries : List ManifestEntry
deriving DecidableEq

namespace Manifest

def size (manifest : Manifest) : Nat := manifest.entries.length

/-- The categories, in the order in which they first appear. -/
def categories (manifest : Manifest) : List String :=
  (manifest.entries.map ManifestEntry.category).eraseDups

def entryError? (registry : SourceRegistry) (entry : ManifestEntry) : Option LoadError :=
  match entry.origin with
  | .theme => none
  | .source name =>
    match registry.tree? name with
    | some _ => none
    | none => some (.unknownOrigin entry.category entry.key name)

/-- Checks that every origin is the theme or a source of the registry. The first entry that
fails counts. -/
def validate (manifest : Manifest) (registry : SourceRegistry) : Except LoadError Unit :=
  match manifest.entries.findSome? (entryError? registry) with
  | some error => .error error
  | none => .ok ()

/-! ### The built-in manifest -/

def themeEntries (category : String) (keys : List String) : List ManifestEntry :=
  keys.map fun key => ⟨category, key, .theme, category ++ "." ++ key⟩

/-- Entries of a category that a source defines in a group, each key with its name there. -/
def renamedEntries (category source group : String) (keys : List (String × String)) :
    List ManifestEntry :=
  keys.map fun (key, name) => ⟨category, key, .source source, group ++ "." ++ name⟩

def sharedEntries (category source group : String) (keys : List String) : List ManifestEntry :=
  renamedEntries category source group (keys.map fun key => (key, key))

def builtin : Manifest := ⟨
  themeEntries "bg" ["default", "default-strong", "default-stronger", "disabled"]
  ++ themeEntries "content" ["primary", "secondary", "disabled"]
  ++ sharedEntries "fontWeight" coreName "fontWeights" ["400", "500", "600", "700"]
  ++ themeEntries "border" ["input", "input-strong", "active", "negative"]
  ++ sharedEntries "borderWidth" coreName "borderWidth" ["s", "m", "l", "xl"]
  ++ sharedEntries "boxShadow" webName "boxShadow" ["l", "m", "s"]
  ++ renamedEntries "spacing" coreName "spacing"
    [("xs", "xs"), ("s", "s"), ("m", "m"), ("l", "l"), ("xl", "xl"), ("xxl", "2xl"),
      ("3xs", "3xs"), ("2xs", "2xs")]
  ++ sharedEntries "fontSizes" coreName "fontSize" ["m", "l", "xl", "s", "xs"]
  ++ sharedEntries "lineHeights" coreName "lineHeights" ["m", "s", "xs"]
  ++ sharedEntries "fontFamilies" coreName "fontFamilies" ["body", "title"]
  ++ sharedEntries "borderRadius" aliasName "borderRadius" ["input"]
  ++ sharedEntries "sizing" coreName "sizing" ["s", "m", "l", "xl", "4xl"]
  ++ sharedEntries "borders" webName "borders"
    ["input.primary", "input.hover", "input.active", "input.error"]⟩

end Manifest

end DesignTokens
