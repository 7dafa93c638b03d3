/-
Walking from a path to the literal that it stands for.

A walk looks its path up in the registry. A value that is a reference leads on
to its target; any other value is the literal where the walk ends. A walk also
ends at a path that no source defines, and at a path that is already on the
trail, which is a circular reference.

Every step puts a defined path on the trail, so a walk ends:
`unvisited_append_lt` says that the number of defined paths not yet on the
trail decreases.
-/
import DesignTokens.Source.Registry

namespace DesignTokens

/-- The paths visited so far, in walking order. -/
abbrev Trail := List String

def Trail.ofList (paths : List String) : Trail := paths.eraseDups

/-- The paths of a trail ordered by code points. -/
def Trail.sorted (trail : Trail) : List String := trail.mergeSort

/-- The observation that a reference led back to a path on the trail. -/
structure CircularReference where
  path : String
deriving DecidableEq

def CircularReference.message (circular : CircularReference) : String :=
  s!"Circular reference: {circular.path}"

inductive Ending
  | literal (value : Value)
  | undefined
  | circular (path : String)

/-- A walk: the paths that it put on the trail, in order, and how it ended. -/
structure Walk where
  steps : List String
  ending : Ending

namespace Walk

def value? (walk : Walk) : Option Value :=
  match walk.ending with
  | .literal value => some value
  | _ => none

def warnings (walk : Walk) : List CircularReference :=
  match walk.ending with
  | .circular path => [⟨path⟩]
  | _ => []

def after (path : String) (walk : Walk) : Walk := ⟨path :: walk.steps, walk.ending⟩

end Walk

/-! ### What remains to be visited -/

private theorem length_filter_lt {items : List String} {before after : String → Bool}
    (within : ∀ item, after item = true → before item = true) {item : String}
    (present : item ∈ items) (kept : before item = true) (dropped : after item = false) :
    (items.filter after).length < (items.filter before).length := by
  have atMost : ∀ rest : List String,
      (rest.filter after).length ≤ (rest.filter before).length := by
    intro rest
    induction rest with
    | nil => simp
    | cons head tail ih =>
      cases keptAfter : after head with
      | true => simp [keptAfter, within head keptAfter, ih]
      | false =>
        cases keptBefore : before head with
        | true => simp [keptAfter, keptBefore]; omega
        | false => simpa [keptAfter, keptBefore] using ih
  induction items with
  | nil => simp at present
  | cons head tail ih =>
    rcases List.mem_cons.mp present with same | later
    · subst same
      have := atMost tail
      simp [kept, dropped]
      omega
    · have := ih later
      cases keptAfter : after head with
      | true => simp [keptAfter, within head keptAfter, this]
      | false =>
        cases keptBefore : before head with
        | true => simp [keptAfter, keptBefore]; omega
        | false => simpa [keptAfter, keptBefore] using this

namespace SourceRegistry

/-- How many defined paths are not on a trail. -/
def unvisited (registry : SourceRegistry) (trail : Trail) : Nat :=
  (registry.definedPaths.filter (fun path => decide (path ∉ trail))).length

theorem unvisited_append_lt {registry : SourceRegistry} {trail : Trail} {path : String}
    {steps : List String} (defined : path ∈ registry.definedPaths) (fresh : path ∉ trail)
    (visited : path ∈ steps) :
    registry.unvisited (trail ++ steps) < registry.unvisited trail := by
  apply length_filter_lt _ defined
  · simpa using fresh
  · simp [visited]
  · intro item outside
    simp only [decide_eq_true_eq, List.mem_append, not_or] at outside ⊢
    exact outside.1

/-! ### The walk -/

def walk (registry : SourceRegistry) (trail : Trail) (path : String) : Walk :=
  if _onTrail : path ∈ trail then
    ⟨[], .circular path⟩
  else
    match _found : registry.valueAt? path with
    | none => ⟨[path], .undefined⟩
    | some value =>
      match value.reference? with
      | none => ⟨[path], .literal value⟩
      | some target => (registry.walk (trail ++ [path]) target).after path
termination_by registry.unvisited trail
decreasing_by
  exact unvisited_append_lt (mem_definedPaths_of_valueAt _found) _onTrail (by simp)

theorem walk_literal {registry : SourceRegistry} {trail : Trail} {path : String} {value : Value}
    (ended : (registry.walk trail path).ending = .literal value) :
    path ∈ registry.definedPaths ∧ path ∉ trail ∧ path ∈ (registry.walk trail path).steps := by
  rw [walk] at ended ⊢
  split at ended
  · contradiction
  · rename_i fresh
    rw [dif_neg fresh]
    split at ended
    · contradiction
    · rename_i found
      refine ⟨mem_definedPaths_of_valueAt found, fresh, ?_⟩
      split <;> simp [Walk.after]

end SourceRegistry

end DesignTokens
