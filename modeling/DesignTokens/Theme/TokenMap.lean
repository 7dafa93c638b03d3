/-
Token maps: the published tokens of one theme.

A map has categories, a category has slots, and a slot holds a value or is
undefined. An undefined slot is not the same as a slot that is not published.
Categories and slots keep the order in which they first came; filling a slot
again replaces its content in its place.
-/
import DesignTokens.Json.Writer

namespace DesignTokens

abbrev TokenCategory := List (String × Option Value)

structure TokenMap where
  categories : List (String × TokenCategory)

namespace TokenMap

def empty : TokenMap := ⟨[]⟩

def category? (map : TokenMap) (category : String) : Option TokenCategory :=
  map.categories.lookup category

/-- The map with a slot filled; the category is new when it was not there. -/
def insert (map : TokenMap) (category key : String) (content : Option Value) : TokenMap :=
  let slots := (map.category? category).getD []
  ⟨putMember category (putMember key content slots) map.categories⟩

/-- A slot: absent when it is not published, and then undefined or a value. -/
def slot? (map : TokenMap) (category key : String) : Option (Option Value) :=
  (map.category? category).bind (·.lookup key)

def get? (map : TokenMap) (category key : String) : Option Value :=
  (map.slot? category key).join

def string? (map : TokenMap) (category key : String) : Option String :=
  (map.get? category key).bind Value.string?

/-- The value of the slot that a dotted name stands for: its category ends at the first dot. -/
def lookup? (map : TokenMap) (name : String) : Option Value :=
  match name.toList.dropWhile (· ≠ '.') with
  | [] => none
  | _ :: key =>
    map.get? (String.ofList (name.toList.takeWhile (· ≠ '.'))) (String.ofList key)

/-- The undefined slots as dotted names, in order. -/
def undefined (map : TokenMap) : List String :=
  map.categories.flatMap fun (category, slots) =>
    (slots.filter fun slot => slot.2.isNone).map fun slot => category ++ "." ++ slot.1

def size (map : TokenMap) : Nat :=
  (map.categories.flatMap fun (_, slots) => slots).length

def slotMembers (slots : TokenCategory) : List (String × Value) :=
  slots.map fun (key, content) => (key, content.getD .null)

/-- The map as an object of objects, with null for an undefined slot. -/
def toValue (map : TokenMap) : Value :=
  .object (map.categories.map fun (category, slots) => (category, .object (slotMembers slots)))

/-- Equality of maps: categories and slots in any order, values as values. -/
def equals (left right : TokenMap) : Bool :=
  left.categories.length == right.categories.length
    && left.categories.all fun (category, slots) =>
      match right.category? category with
      | none => false
      | some others => slots.length == others.length
        && slots.all fun (key, content) =>
          match content, others.lookup key with
          | none, some none => true
          | some value, some (some other) => value.equals other
          | _, _ => false

/-! ### Lookups with a fallback -/

/-- The text of a background color; without one, that of the default background. -/
def background? (map : TokenMap) (variant : String) : Option String :=
  (map.string? "bg" variant).or (map.string? "bg" "default")

/-- The text of a spacing; without one, that of the small spacing. -/
def spacing? (map : TokenMap) (size : String) : Option String :=
  (map.string? "spacing" size).or (map.string? "spacing" "s")

end TokenMap

end DesignTokens
