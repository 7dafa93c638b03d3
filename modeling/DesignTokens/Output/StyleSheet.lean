/-
Token maps as style-sheet variables.

Every string, number and truth value of a map becomes a variable, whether it is
the content of a slot or is reached from it through members of objects. The
name of a variable joins category, key and member names by dashes, with dashes
for the dots of the key. Of two leaves with one name the later counts.

A block lists its variables in the order of their names, so its text does not
depend on the order in which they are given.
-/
import DesignTokens.Theme.TokenMap

namespace DesignTokens

def dashed (text : String) : String :=
  String.ofList (text.toList.map fun c => if c = '.' then '-' else c)

namespace Value

mutual

def namedScalars (name : String) : Value → List (String × String)
  | .null => []
  | .array _ => []
  | .object members => memberScalars name members
  | scalar => [(name, scalar.displayText)]

def memberScalars (name : String) : List (String × Value) → List (String × String)
  | [] => []
  | (member, value) :: rest =>
    value.namedScalars (name ++ "-" ++ member) ++ memberScalars name rest

end

end Value

namespace TokenMap

def slotScalars (category : String) (slot : String × Option Value) : List (String × String) :=
  match slot.2 with
  | none => []
  | some value => value.namedScalars (category ++ "-" ++ dashed slot.1)

def scalars (map : TokenMap) : List (String × String) :=
  map.categories.flatMap fun (category, slots) => slots.flatMap (slotScalars category)

/-- The style-sheet variables of a map: each name once, with the text of its last scalar. -/
def styleVariables (map : TokenMap) : List (String × String) :=
  map.scalars.foldl (fun found entry => putMember entry.1 entry.2 found) []

end TokenMap

def variableBefore (left right : String × String) : Bool :=
  left.1 < right.1 || (left.1 == right.1 && decide (left.2 ≤ right.2))

def variableLine (entry : String × String) : String :=
  "  --" ++ entry.1 ++ ": " ++ entry.2 ++ ";\n"

/-- The block of variables under a selector, in the order of their names. -/
def styleBlock (selector : String) (entries : List (String × String)) : String :=
  selector ++ " \x7b\n" ++ String.join ((entries.mergeSort variableBefore).map variableLine)
    ++ "\x7d\n"

def TokenMap.styleText (map : TokenMap) (selector : String) : String :=
  styleBlock selector map.styleVariables

end DesignTokens
