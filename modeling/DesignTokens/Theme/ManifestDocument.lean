/-
Manifests as TOML documents.

A manifest document is an array of tables `entry`. An entry has a category and a
key; its origin is the theme unless it names one, and its path is category and
key with a dot between unless it gives one.
-/
import DesignTokens.Theme.Manifest
import DesignTokens.Toml.Reader
import DesignTokens.Toml.Record

namespace DesignTokens

def ManifestEntry.ofToml? (value : Toml.Value) : Option ManifestEntry := do
  let fields ← value.record? ["category", "key", "origin", "path"]
  let category ← Toml.requiredText? "category" fields
  let key ← Toml.requiredText? "key" fields
  let origin ← Toml.optionalText? "origin" fields
  let path ← Toml.optionalText? "path" fields
  return {
    category := category
    key := key
    origin := .ofName (origin.getD Origin.themeName)
    path := path.getD (category ++ "." ++ key) }

def Manifest.ofTable? (table : Toml.Table) : Option Manifest := do
  let items ← Toml.optionalItems? "entry" table
  let entries ← Toml.readAll? ManifestEntry.ofToml? items
  return ⟨entries⟩

def Manifest.ofDocument (text : String) : Except LoadError Manifest :=
  match (Toml.read? text).bind Manifest.ofTable? with
  | some manifest => .ok manifest
  | none => .error .malformedManifest

end DesignTokens
