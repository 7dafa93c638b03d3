/-
A resolver: walks that remember what they found.

A resolver remembers, for each path from which a walk found a literal, the
literal and the paths of that walk. A remembered walk stands in for walking
again only when none of its paths is on the trail, and then it puts the same
paths on the trail. A walk that finds nothing is not remembered.

Every remembered path is defined in the registry and is one of the paths of its
own walk; the resolver carries that with it.
-/
import DesignTokens.Resolution.Walk

namespace DesignTokens

/-- A remembered walk: the literal that it found and the paths that it visited, in order. -/
structure Remembered where
  value : Value
  chain : List String

structure Resolver (registry : SourceRegistry) where
  entries : List (String × Remembered)
  grounded : ∀ path entry, (path, entry) ∈ entries →
    path ∈ registry.definedPaths ∧ path ∈ entry.chain

namespace Resolver

variable {registry : SourceRegistry}

def fresh (registry : SourceRegistry) : Resolver registry :=
  ⟨[], by simp⟩

def clear (_resolver : Resolver registry) : Resolver registry := fresh registry

def cached? (resolver : Resolver registry) (path : String) : Option Remembered :=
  resolver.entries.lookup path

/-- The remembered walk from a path, when it does not meet the trail. -/
def remembered? (resolver : Resolver registry) (trail : Trail) (path : String) :
    Option Remembered :=
  (resolver.cached? path).filter fun entry => entry.chain.all fun step => decide (step ∉ trail)

/-- The resolver after a walk from a defined path, which it remembers when it found a literal. -/
def remember (resolver : Resolver registry) (path : String) (walk : Walk)
    (defined : path ∈ registry.definedPaths) (visited : path ∈ walk.steps) :
    Resolver registry :=
  match walk.ending with
  | .literal value =>
    { entries := putMember path ⟨value, walk.steps⟩ resolver.entries
      grounded := by
        intro other entry present
        rcases mem_putMember present with new | old
        · obtain ⟨rfl, rfl⟩ := Prod.mk.inj new
          exact ⟨defined, visited⟩
        · exact resolver.grounded other entry old }
  | _ => resolver

theorem remembered_grounded {resolver : Resolver registry} {trail : Trail} {path : String}
    {entry : Remembered} (recalled : resolver.remembered? trail path = some entry) :
    path ∈ registry.definedPaths ∧ path ∈ entry.chain := by
  obtain ⟨stored, _⟩ := Option.filter_eq_some_iff.mp recalled
  apply resolver.grounded
  obtain ⟨earlier, later, split, _⟩ := List.lookup_eq_some_iff.mp stored
  rw [split]
  simp

def walk (resolver : Resolver registry) (trail : Trail) (path : String) :
    Walk × Resolver registry :=
  if _onTrail : path ∈ trail then
    (⟨[], .circular path⟩, resolver)
  else
    match resolver.remembered? trail path with
    | some entry => (⟨entry.chain, .literal entry.value⟩, resolver)
    | none =>
      match _found : registry.valueAt? path with
      | none => (⟨[path], .undefined⟩, resolver)
      | some value =>
        match value.reference? with
        | none =>
          let walk := ⟨[path], .literal value⟩
          (walk, resolver.remember path walk
            (SourceRegistry.mem_definedPaths_of_valueAt _found) (by simp [walk]))
        | some target =>
          let onward := resolver.walk (trail ++ [path]) target
          let walk := onward.1.after path
          (walk, onward.2.remember path walk
            (SourceRegistry.mem_definedPaths_of_valueAt _found) (by simp [walk, Walk.after]))
termination_by registry.unvisited trail
decreasing_by
  exact SourceRegistry.unvisited_append_lt
    (SourceRegistry.mem_definedPaths_of_valueAt _found) _onTrail (by simp)

theorem walk_literal {resolver : Resolver registry} {trail : Trail} {path : String}
    {value : Value} (ended : (resolver.walk trail path).1.ending = .literal value) :
    path ∈ registry.definedPaths ∧ path ∉ trail ∧ path ∈ (resolver.walk trail path).1.steps := by
  rw [walk] at ended ⊢
  split at ended
  · contradiction
  · rename_i fresh
    rw [dif_neg fresh]
    split at ended
    · rename_i entry recalled
      have grounded := remembered_grounded recalled
      exact ⟨grounded.1, fresh, grounded.2⟩
    · split at ended
      · contradiction
      · rename_i found
        refine ⟨SourceRegistry.mem_definedPaths_of_valueAt found, fresh, ?_⟩
        split <;> simp [Walk.after]

end Resolver

end DesignTokens
