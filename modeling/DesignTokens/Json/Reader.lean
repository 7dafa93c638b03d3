/-
Reading a value from JSON text.

The tokens of a text are read one after another by a machine with a stack of
open containers. Members come out ordered by name whatever their order in the
text, and of two members of one name the later counts. No more than a fixed
number of containers may be open at once.

Reading either gives the value of the complete text or nothing.
-/
import DesignTokens.Json.Token
import DesignTokens.Value

namespace DesignTokens

namespace Json

/-- How many containers may be open at once. -/
def depthLimit : Nat := 127

inductive Frame
  | array (before : List Value)
  | object (before : List (String × Value)) (name : String)

/-- What the machine expects next, inside the containers of its stack. The items before an
awaited element are kept last first, the members in the order of their names. -/
inductive Awaiting
  | value
  | firstItem
  | firstName
  | name (before : List (String × Value))
  | colon (before : List (String × Value)) (name : String)
  | afterValue (value : Value)

/-- The state of the machine: what it awaits, and the open containers from the inside out. -/
structure Machine where
  awaiting : Awaiting
  frames : List Frame

namespace Machine

def initial : Machine := ⟨.value, []⟩

def startValue (frames : List Frame) : Token → Option Machine
  | .null => some ⟨.afterValue .null, frames⟩
  | .bool flag => some ⟨.afterValue (.bool flag), frames⟩
  | .number value => some ⟨.afterValue (.number value), frames⟩
  | .string text => some ⟨.afterValue (.string text), frames⟩
  | .openArray =>
    if frames.length < depthLimit then some ⟨.firstItem, .array [] :: frames⟩ else none
  | .openObject =>
    if frames.length < depthLimit then some ⟨.firstName, frames⟩ else none
  | _ => none

def afterValue (value : Value) : List Frame → Token → Option Machine
  | .array before :: frames, .comma => some ⟨.value, .array (value :: before) :: frames⟩
  | .array before :: frames, .closeArray =>
    some ⟨.afterValue (.array (value :: before).reverse), frames⟩
  | .object before name :: frames, .comma =>
    some ⟨.name (putSorted name value before), frames⟩
  | .object before name :: frames, .closeObject =>
    some ⟨.afterValue (.object (putSorted name value before)), frames⟩
  | _, _ => none

def step (machine : Machine) (token : Token) : Option Machine :=
  match machine.awaiting, token with
  | .value, token => startValue machine.frames token
  | .firstItem, .closeArray => some ⟨.afterValue (.array []), machine.frames.tail⟩
  | .firstItem, token => startValue machine.frames token
  | .firstName, .closeObject => some ⟨.afterValue (.object []), machine.frames⟩
  | .firstName, .string name => some ⟨.colon [] name, machine.frames⟩
  | .name before, .string name => some ⟨.colon before name, machine.frames⟩
  | .colon before name, .colon => some ⟨.value, .object before name :: machine.frames⟩
  | .afterValue value, token => afterValue value machine.frames token
  | _, _ => none

def run (machine : Machine) : List Token → Option Machine
  | [] => some machine
  | token :: rest => (machine.step token).bind (·.run rest)

def result? : Machine → Option Value
  | ⟨.afterValue value, []⟩ => some value
  | _ => none

end Machine

def ofTokens? (tokens : List Token) : Option Value :=
  (Machine.initial.run tokens).bind Machine.result?

def read? (text : String) : Option Value :=
  (tokens? text.toList).bind ofTokens?

end Json

end DesignTokens
