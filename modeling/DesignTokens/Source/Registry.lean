/-
The registry of token sources.

A registry is a list of named token trees with distinct names. Its order is
search priority: a path that several sources define belongs to the first of
them, and nothing is merged.

The paths that a registry defines are finitely many, and `definedPaths` lists
each of them once: `mem_definedPaths_iff` says that it is exactly the paths
whose search succeeds.
-/
import DesignTokens.Json.Reader
import DesignTokens.Source.LoadError
import DesignTokens.Tree.Document
import DesignTokens.Tree.Path

namespace DesignTokens

def TokenTree.ofJson (name text : String) : Except LoadError TokenTree :=
  match Json.read? text with
  | none => .error (.malformedDocument name)
  | some value =>
    match TokenTree.ofValue? value with
    | none => .error (.rootNotGroup name)
    | some tree => .ok tree

structure Source where
  name : String
  tree : TokenTree

/-- Named token trees in search priority. -/
structure SourceRegistry where
  sources : List Source
  distinct : (sources.map Source.name).Nodup

structure Found where
  source : String
  node : TokenNode

namespace SourceRegistry

def empty : SourceRegistry := ⟨[], List.nodup_nil⟩

def names (registry : SourceRegistry) : List String :=
  registry.sources.map Source.name

def tree? (registry : SourceRegistry) (name : String) : Option TokenTree :=
  (registry.sources.find? (fun source => source.name == name)).map Source.tree

def size (registry : SourceRegistry) : Nat := registry.sources.length

/-- The node that the first source with a node under a path has there. -/
def find? (registry : SourceRegistry) (path : String) : Option Found :=
  registry.sources.findSome? fun source =>
    (source.tree.lookup? path).map (⟨source.name, ·⟩)

def valueAt? (registry : SourceRegistry) (path : String) : Option Value :=
  (registry.find? path).map (·.node.toValue)

/-! ### Adding sources -/

def push (registry : SourceRegistry) (name : String) (tree : TokenTree) :
    Except LoadError SourceRegistry :=
  if fresh : name ∈ registry.names then
    .error (.duplicateSource name)
  else
    .ok {
      sources := registry.sources ++ [⟨name, tree⟩]
      distinct := by
        rw [List.map_append, List.nodup_append]
        refine ⟨registry.distinct, by simp, ?_⟩
        intro used isUsed added isAdded same
        simp only [List.map_cons, List.map_nil, List.mem_singleton] at isAdded
        subst isAdded
        subst same
        exact fresh isUsed }

/-- The registry with the tree of a document added; a document that cannot be read counts
before a name that is taken. -/
def pushJson (registry : SourceRegistry) (name text : String) :
    Except LoadError SourceRegistry := do
  let tree ← TokenTree.ofJson name text
  registry.push name tree

def pushFile (registry : SourceRegistry) (name path : String)
    (content : Except ReadFailure String) : Except LoadError SourceRegistry :=
  match content with
  | .error failure => .error (.unreadable path failure)
  | .ok text => registry.pushJson name text

/-! ### The paths that a registry defines -/

/-- Every path whose search succeeds, once. -/
def definedPaths (registry : SourceRegistry) : List String :=
  ((registry.sources.flatMap (·.tree.paths)).filter
    (fun path => (registry.find? path).isSome)).eraseDups

theorem mem_definedPaths_iff {registry : SourceRegistry} {path : String} :
    path ∈ registry.definedPaths ↔ (registry.find? path).isSome = true := by
  unfold definedPaths
  rw [List.mem_eraseDups, List.mem_filter]
  constructor
  · exact fun both => both.2
  · intro defined
    refine ⟨?_, defined⟩
    obtain ⟨found, isFound⟩ := Option.isSome_iff_exists.mp defined
    obtain ⟨source, present, there⟩ := List.exists_of_findSome?_eq_some isFound
    obtain ⟨node, looked, _⟩ := Option.map_eq_some_iff.mp there
    exact List.mem_flatMap.mpr ⟨source, present, TokenTree.mem_paths_of_lookup looked⟩

theorem mem_definedPaths_of_valueAt {registry : SourceRegistry} {path : String} {value : Value}
    (found : registry.valueAt? path = some value) : path ∈ registry.definedPaths := by
  obtain ⟨node, isFound, _⟩ := Option.map_eq_some_iff.mp found
  exact mem_definedPaths_iff.mpr (by rw [isFound]; rfl)

end SourceRegistry

end DesignTokens
