/-
Loading a configuration and what it refers to.

A configuration is loaded from a file, or from the file of a fixed name in a
directory. Files are read by a function that the caller gives, in any monad, so
loading from a tree in memory is a pure computation.
-/
import DesignTokens.Configuration.Basic
import DesignTokens.Files.Tree
import DesignTokens.Theme.Build

namespace DesignTokens

def configurationName : String := "vellum.toml"

def Configuration.ofDocument (path : String) (content : Except ReadFailure String) :
    Except ConfigurationError Configuration :=
  if readsAsMissing content then .error (.missing path)
  else
    match content with
    | .error failure => .error (.unreadable path failure)
    | .ok text =>
      match (Toml.read? text).bind (Configuration.ofTable? (parentPath path)) with
      | none => .error (.malformed path)
      | some configuration => .ok configuration

def Manifest.ofFile (path : String) (content : Except ReadFailure String) :
    Except ConfigurationError Manifest :=
  match content with
  | .error failure => .error (.unreadable path failure)
  | .ok text =>
    match Manifest.ofDocument text with
    | .error _ => .error (.malformedManifest path)
    | .ok manifest => .ok manifest

namespace Configuration

variable {m : Type → Type} [Monad m]

def load (read : FileReader m) (path : String) :
    m (Except ConfigurationError Configuration) := do
  let content ← read path
  if readsAsDirectory content then
    let inside := joinPath path configurationName
    let insideContent ← read inside
    return ofDocument inside insideContent
  else
    return ofDocument path content

def loadSources (read : FileReader m) (configuration : Configuration) :
    SourceRegistry → List SourceFile → m (Except ConfigurationError SourceRegistry)
  | registry, [] => pure (.ok registry)
  | registry, source :: rest => do
    let path := configuration.locate source.path
    let content ← read path
    match registry.pushFile source.name path content with
    | .error error => return .error (.source source.name error)
    | .ok next => configuration.loadSources read next rest

/-- The registry of a configuration: its source files, or the built-in sources when it lists
none. -/
def loadRegistry (read : FileReader m) (configuration : Configuration) :
    m (Except ConfigurationError SourceRegistry) :=
  if configuration.sources.isEmpty then pure (.ok .builtin)
  else configuration.loadSources read .empty configuration.sources

def loadManifest (read : FileReader m) (configuration : Configuration) :
    m (Except ConfigurationError Manifest) :=
  match configuration.manifest with
  | none => pure (.ok .builtin)
  | some relative => do
    let path := configuration.locate relative
    let content ← read path
    return Manifest.ofFile path content

def themeTree (registry : SourceRegistry) (name : String) :
    Except ConfigurationError TokenTree :=
  match registry.tree? name with
  | some tree => .ok tree
  | none => .error (.unknownTheme name)

def buildTokens (configuration : Configuration) (registry : SourceRegistry)
    (manifest : Manifest) : Except ConfigurationError (Traced ThemeTokens) := do
  let light ← themeTree registry configuration.themes.light
  let dark ← themeTree registry configuration.themes.dark
  match ThemeTokens.build registry manifest light dark with
  | .ok tokens => .ok tokens
  | .error error => .error (.themes error)

/-- The theme tokens of a configuration, given its registry. The manifest is loaded first. -/
def loadTokens (read : FileReader m) (configuration : Configuration)
    (registry : SourceRegistry) : m (Except ConfigurationError (Traced ThemeTokens)) := do
  let manifest ← configuration.loadManifest read
  return manifest.bind (configuration.buildTokens registry)

end Configuration

end DesignTokens
