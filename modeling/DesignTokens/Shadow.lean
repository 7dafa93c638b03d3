/-
Shadow layers and their style-sheet text.

A shadow token is an array of layer descriptors: objects with two offsets, a
blur, a spread and a color. A length is a number or a text that denotes one. An
array whose elements are all layers is written as one shadow, layer by layer.

`collapse` looks at the first element before it reads all of them; an array all
of whose elements are layers always passes that look.
-/
import DesignTokens.Json.Writer
import DesignTokens.Number.Decimal
import DesignTokens.Text.Blank

namespace DesignTokens

inductive ShadowKind
  | outer
  | inner
deriving DecidableEq

/-- The kind that a descriptor names: only one name makes a layer an inner one. -/
def ShadowKind.ofName (name : String) : ShadowKind :=
  if name = "innerShadow" then .inner else .outer

def ShadowKind.name : ShadowKind → String
  | .outer => "dropShadow"
  | .inner => "innerShadow"

structure ShadowLayer where
  x : Number
  y : Number
  blur : Number
  spread : Number
  color : String
  kind : ShadowKind

def shadowFields : List String := ["x", "y", "blur", "spread", "color"]

/-- A length: a number, or a text that denotes a number between blanks. -/
def shadowLength? : Value → Option Number
  | .number value => some value
  | .string text => Number.ofText? (trimBlank text.toList)
  | _ => none

namespace ShadowLayer

def isDescriptor (value : Value) : Bool :=
  match value.members? with
  | some members => shadowFields.all fun field => (members.lookup field).isSome
  | none => false

def kindOf (members : List (String × Value)) : ShadowKind :=
  match (members.lookup "type").bind Value.string? with
  | some name => .ofName name
  | none => .outer

/-- The layer that a descriptor describes, when every member has the right type. -/
def ofValue? (value : Value) : Option ShadowLayer := do
  let members ← value.members?
  let x ← (members.lookup "x").bind shadowLength?
  let y ← (members.lookup "y").bind shadowLength?
  let blur ← (members.lookup "blur").bind shadowLength?
  let spread ← (members.lookup "spread").bind shadowLength?
  let color ← (members.lookup "color").bind Value.string?
  return ⟨x, y, blur, spread, color, kindOf members⟩

def pixels (length : Number) : String := String.ofList length.displayText ++ "px"

def text (layer : ShadowLayer) : String :=
  let mark := match layer.kind with
    | .inner => "inset "
    | .outer => ""
  mark ++ pixels layer.x ++ " " ++ pixels layer.y ++ " " ++ pixels layer.blur ++ " "
    ++ pixels layer.spread ++ " " ++ layer.color

end ShadowLayer

def shadowLayers? : List Value → Option (List ShadowLayer)
  | [] => some []
  | value :: rest =>
    match ShadowLayer.ofValue? value, shadowLayers? rest with
    | some layer, some layers => some (layer :: layers)
    | _, _ => none

def shadowText (layers : List ShadowLayer) : String :=
  ", ".intercalate (layers.map ShadowLayer.text)

/-- The normal form of an array whose elements are in normal form: the text of a shadow when
all of them are layers, else the array itself. -/
def collapse (items : List Value) : Value :=
  match items with
  | [] => .array []
  | first :: _ =>
    if ShadowLayer.isDescriptor first then
      match shadowLayers? items with
      | some layers => .string (shadowText layers)
      | none => .array items
    else
      .array items

end DesignTokens
