/-
The normal form of a value.

In the normal form every reference is replaced by the normal form of the
literal that it stands for. An undefined item of an array becomes null, an
undefined member of an object is left out, and an array of shadow layers
becomes the text of the shadow.

The traversal of a value (`Value.normalWith`) does not know how references are
followed; it runs in any monad. `SourceRegistry.normalize` follows them by plain
walks and `Resolver.normalize` by walks that remember. A reference inside a
literal is followed with the trail of the walk that led to the literal, so a
circle through arrays or objects is noticed as well.
-/
import DesignTokens.Resolution.Resolver
import DesignTokens.Shadow

namespace DesignTokens

/-! ### Results with warnings -/

/-- A result, and the circular references met on the way to it, in order. -/
structure Traced (α : Type) where
  result : α
  warnings : List CircularReference

instance : Monad Traced where
  pure result := ⟨result, []⟩
  bind first next :=
    let second := next first.result
    ⟨second.result, first.warnings ++ second.warnings⟩

namespace Traced

variable {α β : Type}

@[simp] theorem result_pure (result : α) : (pure result : Traced α).result = result := rfl

@[simp] theorem warnings_pure (result : α) : (pure result : Traced α).warnings = [] := rfl

@[simp] theorem result_bind (first : Traced α) (next : α → Traced β) :
    (first >>= next).result = (next first.result).result := rfl

@[simp] theorem warnings_bind (first : Traced α) (next : α → Traced β) :
    (first >>= next).warnings = first.warnings ++ (next first.result).warnings := rfl

end Traced

/-! ### The traversal of a value -/

namespace Value

variable {m : Type → Type} [Monad m]

mutual

/-- The normal form of a value, given what the reference to a path comes to. -/
def normalWith (follow : String → m (Option Value)) : Value → m (Option Value)
  | .string text =>
    match referencePath? text with
    | some path => follow path
    | none => pure (some (.string text))
  | .array items => do
    let normal ← normalItems follow items
    return some (collapse normal)
  | .object members => do
    let normal ← normalMembers follow members
    return some (.object normal)
  | value => pure (some value)

/-- The normal forms of items, with null for an undefined one. -/
def normalItems (follow : String → m (Option Value)) : List Value → m (List Value)
  | [] => pure []
  | item :: rest => do
    let normal ← item.normalWith follow
    let others ← normalItems follow rest
    return normal.getD .null :: others

/-- The normal forms of members, without the undefined ones. -/
def normalMembers (follow : String → m (Option Value)) :
    List (String × Value) → m (List (String × Value))
  | [] => pure []
  | (name, value) :: rest => do
    let normal ← value.normalWith follow
    let others ← normalMembers follow rest
    return match normal with
      | some defined => (name, defined) :: others
      | none => others

end

end Value

/-! ### Following references by plain walks -/

namespace SourceRegistry

def follow (registry : SourceRegistry) (trail : Trail) (path : String) :
    Traced (Option Value) :=
  let walk := registry.walk trail path
  match _ended : walk.ending with
  | .undefined => ⟨none, []⟩
  | .circular again => ⟨none, [⟨again⟩]⟩
  | .literal value => value.normalWith (registry.follow (trail ++ walk.steps))
termination_by registry.unvisited trail
decreasing_by
  obtain ⟨defined, fresh, visited⟩ := walk_literal _ended
  exact unvisited_append_lt defined fresh visited

def normalizeIn (registry : SourceRegistry) (trail : Trail) (value : Value) :
    Traced (Option Value) :=
  value.normalWith (registry.follow trail)

def normalize (registry : SourceRegistry) (value : Value) : Traced (Option Value) :=
  registry.normalizeIn [] value

end SourceRegistry

/-! ### Following references by walks that remember -/

abbrev Resolving (registry : SourceRegistry) := StateT (Resolver registry) Traced

namespace Resolver

variable {registry : SourceRegistry}

def follow (resolver : Resolver registry) (trail : Trail) (path : String) :
    Traced (Option Value × Resolver registry) :=
  let walked := resolver.walk trail path
  match _ended : walked.1.ending with
  | .undefined => ⟨(none, walked.2), []⟩
  | .circular again => ⟨(none, walked.2), [⟨again⟩]⟩
  | .literal value =>
    let onward : String → Resolving registry (Option Value) := fun target later =>
      later.follow (trail ++ walked.1.steps) target
    (value.normalWith onward).run walked.2
termination_by registry.unvisited trail
decreasing_by
  obtain ⟨defined, fresh, visited⟩ := walk_literal _ended
  exact SourceRegistry.unvisited_append_lt defined fresh visited

def normalizeIn (resolver : Resolver registry) (trail : Trail) (value : Value) :
    Traced (Option Value × Resolver registry) :=
  let followed : String → Resolving registry (Option Value) := fun target later =>
    later.follow trail target
  (value.normalWith followed).run resolver

def normalize (resolver : Resolver registry) (value : Value) :
    Traced (Option Value × Resolver registry) :=
  resolver.normalizeIn [] value

def normalizeNode (resolver : Resolver registry) (node : Option TokenNode) :
    Traced (Option Value × Resolver registry) :=
  match node with
  | none => ⟨(none, resolver), []⟩
  | some present => resolver.normalize present.toValue

end Resolver

end DesignTokens
