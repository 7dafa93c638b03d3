/-
What can go wrong while token sources and manifests are loaded.

Resolution itself never fails: a missing or circular reference leaves a token
undefined. Each error names its cause, and `message` is its wording.
-/

namespace DesignTokens

inductive ReadFailure
  | notFound
  | isDirectory
  | notDirectory
  | notText
  | other (text : String)
deriving DecidableEq

def ReadFailure.message : ReadFailure → String
  | .notFound => "No such file or directory (os error 2)"
  | .isDirectory => "Is a directory (os error 21)"
  | .notDirectory => "Not a directory (os error 20)"
  | .notText => "stream did not contain valid UTF-8"
  | .other text => text

inductive LoadError
  | malformedDocument (name : String)
  | rootNotGroup (name : String)
  | duplicateSource (name : String)
  | unknownOrigin (category key origin : String)
  | missingTheme (name : String)
  | malformedManifest
  | unreadable (path : String) (failure : ReadFailure)
deriving DecidableEq

def LoadError.message : LoadError → String
  | .malformedDocument name => s!"failed to parse token document `{name}`"
  | .rootNotGroup name => s!"token document `{name}` must have an object at its root"
  | .duplicateSource name => s!"duplicate token source `{name}`"
  | .unknownOrigin category key origin =>
    s!"manifest entry `{category}.{key}` refers to unknown source `{origin}`"
  | .missingTheme name => s!"no token source for theme `{name}`"
  | .malformedManifest => "failed to parse manifest"
  | .unreadable path failure => s!"failed to read `{path}`: {failure.message}"

end DesignTokens
