/-
Configurations: which sources, manifest and themes a run uses.

A configuration document may name a manifest file, list source files in search
priority, and name the sources of the two themes. Paths in it are relative to
the directory of the document. What it leaves out is built in.
-/
import DesignTokens.Files.Location
import DesignTokens.Theme.ManifestDocument
import DesignTokens.Theme.Variant

namespace DesignTokens

structure SourceFile where
  name : String
  path : String
deriving DecidableEq

structure ThemeSources where
  light : String
  dark : String
deriving DecidableEq

/-- A configuration, and the directory that its paths are relative to. -/
structure Configuration where
  manifest : Option String
  sources : List SourceFile
  themes : ThemeSources
  root : String
deriving DecidableEq

inductive ConfigurationError
  | missing (path : String)
  | unreadable (path : String) (failure : ReadFailure)
  | malformed (path : String)
  | source (name : String) (error : LoadError)
  | malformedManifest (path : String)
  | unknownTheme (name : String)
  | themes (error : LoadError)
deriving DecidableEq

def LoadError.chain : LoadError → List String
  | .unreadable path failure => [LoadError.message (.unreadable path failure), failure.message]
  | error => [error.message]

/-- The wordings of a configuration error and of its causes, from the outside in. -/
def ConfigurationError.chain : ConfigurationError → List String
  | .missing path => [s!"No config found at {path}"]
  | .unreadable path failure => [s!"Failed to read {path}", failure.message]
  | .malformed path => [s!"Failed to parse {path}"]
  | .source name error => s!"Failed to load token source `{name}`" :: error.chain
  | .malformedManifest path => s!"Failed to parse {path}" :: LoadError.chain .malformedManifest
  | .unknownTheme name => [s!"Theme source `{name}` is not configured"]
  | .themes error => error.chain

def ConfigurationError.message (error : ConfigurationError) : String :=
  error.chain.headD ""

def ThemeSources.default : ThemeSources := ⟨lightName, darkName⟩

def Configuration.default : Configuration := ⟨none, [], .default, ""⟩

/-! ### Configuration documents -/

def SourceFile.ofToml? (value : Toml.Value) : Option SourceFile := do
  let fields ← value.record? ["name", "path"]
  let name ← Toml.requiredText? "name" fields
  let path ← Toml.requiredText? "path" fields
  return ⟨name, path⟩

def ThemeSources.ofToml? (value : Toml.Value) : Option ThemeSources := do
  let fields ← value.record? ["light", "dark"]
  let light ← Toml.optionalText? "light" fields
  let dark ← Toml.optionalText? "dark" fields
  return ⟨light.getD lightName, dark.getD darkName⟩

def ThemeSources.ofTable? (table : Toml.Table) : Option ThemeSources :=
  match table.lookup "themes" with
  | none => some .default
  | some value => ThemeSources.ofToml? value

def Configuration.ofTable? (root : String) (table : Toml.Table) : Option Configuration := do
  let manifest ← Toml.optionalText? "manifest" table
  let items ← Toml.optionalItems? "source" table
  let sources ← Toml.readAll? SourceFile.ofToml? items
  let themes ← ThemeSources.ofTable? table
  return ⟨manifest, sources, themes, root⟩

def Configuration.locate (configuration : Configuration) (relative : String) : String :=
  joinPath configuration.root relative

end DesignTokens
