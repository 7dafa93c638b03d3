/-
What the traversal of a value asks for.

The traversal runs in any monad, and all it knows of a reference is what following
it comes to. So two traversals are related as soon as following is, at each
reference inside the value: by every relation between computations that
returning a result keeps, and taking one step after another.
-/
import DesignTokens.Resolution.NormalForm

namespace DesignTokens

/-! ### References inside a value -/

namespace Value

mutual

/-- The paths that the texts in a value refer to, at any depth. -/
def references : Value → List String
  | .string text => (referencePath? text).toList
  | .array items => itemReferences items
  | .object members => memberReferences members
  | _ => []

def itemReferences : List Value → List String
  | [] => []
  | item :: rest => item.references ++ itemReferences rest

def memberReferences : List (String × Value) → List String
  | [] => []
  | (_, value) :: rest => value.references ++ memberReferences rest

end

theorem references_of_reference {value : Value} {target : String}
    (refers : value.reference? = some target) : value.references = [target] := by
  cases value with
  | string text =>
      have path : referencePath? text = some target := refers
      rw [references, path]
      rfl
  | null => cases refers
  | bool => cases refers
  | number => cases refers
  | array => cases refers
  | object => cases refers

end Value

/-! ### Related traversals -/

/-- A relation between the computations of two monads that respects what monads do. -/
structure Correspondence (m n : Type → Type) [Monad m] [Monad n] where
  Related : {α : Type} → m α → n α → Prop
  returning : ∀ {α : Type} (result : α), Related (pure result) (pure result)
  sequencing : ∀ {α β : Type} {first : m α} {other : n α} {next : α → m β} {otherNext : α → n β},
    Related first other → (∀ result, Related (next result) (otherNext result)) →
      Related (first >>= next) (other >>= otherNext)

/-- Equality of computations. -/
def Correspondence.same (m : Type → Type) [Monad m] : Correspondence m m where
  Related left right := left = right
  returning _ := rfl
  sequencing first later := by rw [first, funext later]

namespace Value

variable {m n : Type → Type} [Monad m] [Monad n] (kept : Correspondence m n)
  {left : String → m (Option Value)} {right : String → n (Option Value)}

mutual

theorem normalWith_related :
    (value : Value) → (∀ path ∈ value.references, kept.Related (left path) (right path)) →
      kept.Related (value.normalWith left) (value.normalWith right)
  | .string text, each => by
      rw [references] at each
      rw [normalWith, normalWith]
      cases refers : referencePath? text with
      | some path =>
          rw [refers] at each
          exact each path List.mem_cons_self
      | none => exact kept.returning _
  | .array items, each => by
      rw [references] at each
      rw [normalWith, normalWith]
      exact kept.sequencing (normalItems_related items each) fun _ => kept.returning _
  | .object members, each => by
      rw [references] at each
      rw [normalWith, normalWith]
      exact kept.sequencing (normalMembers_related members each) fun _ => kept.returning _
  | .null, _ => kept.returning _
  | .bool _, _ => kept.returning _
  | .number _, _ => kept.returning _

theorem normalItems_related :
    (items : List Value) →
      (∀ path ∈ itemReferences items, kept.Related (left path) (right path)) →
      kept.Related (normalItems left items) (normalItems right items)
  | [], _ => kept.returning _
  | item :: rest, each => by
      rw [itemReferences] at each
      have first := normalWith_related item fun path inside =>
        each path (List.mem_append_left _ inside)
      have later := normalItems_related rest fun path inside =>
        each path (List.mem_append_right _ inside)
      rw [normalItems, normalItems]
      exact kept.sequencing first fun _ => kept.sequencing later fun _ => kept.returning _

theorem normalMembers_related :
    (members : List (String × Value)) →
      (∀ path ∈ memberReferences members, kept.Related (left path) (right path)) →
      kept.Related (normalMembers left members) (normalMembers right members)
  | [], _ => kept.returning _
  | (name, value) :: rest, each => by
      rw [memberReferences] at each
      have first := normalWith_related value fun path inside =>
        each path (List.mem_append_left _ inside)
      have later := normalMembers_related rest fun path inside =>
        each path (List.mem_append_right _ inside)
      rw [normalMembers, normalMembers]
      exact kept.sequencing first fun _ => kept.sequencing later fun _ => kept.returning _

end

/-- The traversal asks for the references inside the value and for no others. -/
theorem normalWith_congr (value : Value) {other : String → m (Option Value)}
    (same : ∀ path ∈ value.references, left path = other path) :
    value.normalWith left = value.normalWith other :=
  normalWith_related (.same m) value same

end Value

end DesignTokens
