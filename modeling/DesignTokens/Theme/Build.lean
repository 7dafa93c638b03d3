/-
Building the token maps of a theme.

A map is built by normalizing the definition of every manifest entry, in order.
A token that does not resolve leaves its slot undefined and never stops the
build. Several maps may be built by one resolver; the two maps of a theme are
built by a fresh resolver each, after the manifest was checked.
-/
import DesignTokens.Resolution.NormalForm
import DesignTokens.Theme.Manifest
import DesignTokens.Theme.TokenMap
import DesignTokens.Theme.Variant

namespace DesignTokens

def ManifestEntry.definition? (entry : ManifestEntry) (registry : SourceRegistry)
    (theme : TokenTree) : Option TokenNode :=
  match entry.origin with
  | .theme => theme.lookup? entry.path
  | .source name => (registry.tree? name).bind (·.lookup? entry.path)

def Resolver.fill {registry : SourceRegistry} (resolver : Resolver registry)
    (theme : TokenTree) (map : TokenMap) :
    List ManifestEntry → Traced (TokenMap × Resolver registry)
  | [] => ⟨(map, resolver), []⟩
  | entry :: rest =>
    let normal := resolver.normalizeNode (entry.definition? registry theme)
    let filled := map.insert entry.category entry.key normal.result.1
    let others := normal.result.2.fill theme filled rest
    ⟨others.result, normal.warnings ++ others.warnings⟩

def Resolver.buildMap {registry : SourceRegistry} (resolver : Resolver registry)
    (manifest : Manifest) (theme : TokenTree) : Traced (TokenMap × Resolver registry) :=
  resolver.fill theme .empty manifest.entries

def SourceRegistry.buildMap (registry : SourceRegistry) (manifest : Manifest)
    (theme : TokenTree) : Traced TokenMap :=
  let built := (Resolver.fresh registry).buildMap manifest theme
  ⟨built.result.1, built.warnings⟩

structure ThemeTokens where
  light : TokenMap
  dark : TokenMap

namespace ThemeTokens

def map (tokens : ThemeTokens) : ThemeVariant → TokenMap
  | .light => tokens.light
  | .dark => tokens.dark

/-- The maps of a light and a dark tree, the light one built first. -/
def build (registry : SourceRegistry) (manifest : Manifest) (light dark : TokenTree) :
    Except LoadError (Traced ThemeTokens) := do
  manifest.validate registry
  let lightMap := registry.buildMap manifest light
  let darkMap := registry.buildMap manifest dark
  return ⟨⟨lightMap.result, darkMap.result⟩, lightMap.warnings ++ darkMap.warnings⟩

def themeTree (registry : SourceRegistry) (variant : ThemeVariant) :
    Except LoadError TokenTree :=
  match registry.tree? variant.name with
  | some tree => .ok tree
  | none => .error (.missingTheme variant.name)

def ofRegistry (registry : SourceRegistry) (manifest : Manifest) :
    Except LoadError (Traced ThemeTokens) := do
  let light ← themeTree registry .light
  let dark ← themeTree registry .dark
  build registry manifest light dark

def builtin : Except LoadError (Traced ThemeTokens) :=
  ofRegistry .builtin .builtin

end ThemeTokens

/-! ### Published tokens -/

/-- The theme tokens that a running program publishes: none until the first publication. -/
abbrev PublishedTokens := Option ThemeTokens

namespace PublishedTokens

/-- Publishes theme tokens; the first publication stays. -/
def publish (published : PublishedTokens) (tokens : ThemeTokens) : PublishedTokens :=
  some (published.getD tokens)

def publishBuiltin (published : PublishedTokens) : Except LoadError PublishedTokens :=
  match published with
  | some tokens => .ok (some tokens)
  | none => do
    let tokens ← ThemeTokens.builtin
    return some tokens.result

def missingMessage : String :=
  "ThemeTokens not initialized. Call ThemeTokens::init() at app startup."

def demand (published : PublishedTokens) : Except String ThemeTokens :=
  match published with
  | some tokens => .ok tokens
  | none => .error missingMessage

def defaultMap? (published : PublishedTokens) : Option TokenMap :=
  Option.map (·.map .default) published

end PublishedTokens

end DesignTokens
