/-
Token values.

A value is what a token can hold, from a raw literal in a document to a fully
resolved value in a theme. The members of an object are kept in order, and each
name occurs once (`Value.WellFormed`). Equality of values ignores the order of
members and compares numbers as numbers.
-/
import DesignTokens.Members
import DesignTokens.Number.Text

namespace DesignTokens

inductive Value
  | null
  | bool (flag : Bool)
  | number (value : Number)
  | string (text : String)
  | array (items : List Value)
  | object (members : List (String × Value))

/-- The path inside a reference text: the text between one opening and one closing brace that
enclose it. -/
def referencePath? (text : String) : Option String :=
  match text.toList with
  | [] => none
  | first :: rest =>
    if first = '{' && rest.getLast? = some '}' then some (String.ofList rest.dropLast)
    else none

def referenceText (path : String) : String :=
  String.ofList ('{' :: path.toList ++ ['}'])

namespace Value

/-! ### Questions about a value -/

def reference? : Value → Option String
  | .string text => referencePath? text
  | _ => none

def string? : Value → Option String
  | .string text => some text
  | _ => none

def number? : Value → Option Number
  | .number value => some value
  | _ => none

def members? : Value → Option (List (String × Value))
  | .object members => some members
  | _ => none

/-- Whether a value is null, which is a value and not the absence of one. -/
def isNull : Value → Bool
  | .null => true
  | _ => false

/-! ### Well-formedness -/

mutual

def WellFormed : Value → Prop
  | .array items => ItemsWellFormed items
  | .object members => DistinctNames members ∧ MembersWellFormed members
  | _ => True

def ItemsWellFormed : List Value → Prop
  | [] => True
  | item :: rest => item.WellFormed ∧ ItemsWellFormed rest

def MembersWellFormed : List (String × Value) → Prop
  | [] => True
  | (_, value) :: rest => value.WellFormed ∧ MembersWellFormed rest

end

/-! ### Equality -/

mutual

/-- Equality of values: numbers as numbers, arrays item by item, objects member by member in
any order. -/
def equals : Value → Value → Bool
  | .null, .null => true
  | .bool left, .bool right => left == right
  | .number left, .number right => left.equals right
  | .string left, .string right => left == right
  | .array left, .array right => itemsEqual left right
  | .object left, .object right => left.length == right.length && membersWithin left right
  | _, _ => false

def itemsEqual : List Value → List Value → Bool
  | [], [] => true
  | left :: lefts, right :: rights => left.equals right && itemsEqual lefts rights
  | _, _ => false

def membersWithin : List (String × Value) → List (String × Value) → Bool
  | [], _ => true
  | (name, value) :: rest, others =>
    (match others.lookup name with
      | some other => value.equals other
      | none => false) && membersWithin rest others

end

/-! ### Member order -/

mutual

def sorted : Value → Value
  | .array items => .array (sortedItems items)
  | .object members => .object (sortMembers (sortedMembers members))
  | value => value

def sortedItems : List Value → List Value
  | [] => []
  | item :: rest => item.sorted :: sortedItems rest

def sortedMembers : List (String × Value) → List (String × Value)
  | [] => []
  | (name, value) :: rest => (name, value.sorted) :: sortedMembers rest

end

end Value

end DesignTokens
