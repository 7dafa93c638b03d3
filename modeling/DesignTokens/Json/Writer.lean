/-
Writing a value as JSON text.

The compact form has no spaces. The pretty form puts every item and member on a
line of its own, indented by two spaces for each open container, and writes an
empty container as its two brackets. Members are written in their order.

A string escapes quotes, backslashes and control characters, and nothing else.
-/
import DesignTokens.Value

namespace DesignTokens

namespace Json

def hexDigit (value : Nat) : Char := Nat.digitChar value

def escape (c : Char) : List Char :=
  if c = '"' then ['\\', '"']
  else if c = '\\' then ['\\', '\\']
  else if c = '\x08' then ['\\', 'b']
  else if c = '\x0c' then ['\\', 'f']
  else if c = '\n' then ['\\', 'n']
  else if c = '\r' then ['\\', 'r']
  else if c = '\t' then ['\\', 't']
  else if c.toNat < 0x20 then
    ['\\', 'u', '0', '0', hexDigit (c.toNat / 16), hexDigit (c.toNat % 16)]
  else [c]

def quoted (text : String) : List Char :=
  '"' :: (text.toList.flatMap escape ++ ['"'])

/-! ### The compact form -/

mutual

def compact : Value → List Char
  | .null => ['n', 'u', 'l', 'l']
  | .bool true => ['t', 'r', 'u', 'e']
  | .bool false => ['f', 'a', 'l', 's', 'e']
  | .number value => value.jsonText
  | .string text => quoted text
  | .array [] => ['[', ']']
  | .array (item :: rest) => '[' :: (compact item ++ compactItems rest)
  | .object [] => ['{', '}']
  | .object ((name, value) :: rest) =>
    '{' :: (quoted name ++ ':' :: (compact value ++ compactMembers rest))

def compactItems : List Value → List Char
  | [] => [']']
  | item :: rest => ',' :: (compact item ++ compactItems rest)

def compactMembers : List (String × Value) → List Char
  | [] => ['}']
  | (name, value) :: rest =>
    ',' :: (quoted name ++ ':' :: (compact value ++ compactMembers rest))

end

/-! ### The pretty form -/

def newLine (depth : Nat) : List Char :=
  '\n' :: List.replicate (2 * depth) ' '

mutual

def prettyAt (depth : Nat) : Value → List Char
  | .null => ['n', 'u', 'l', 'l']
  | .bool true => ['t', 'r', 'u', 'e']
  | .bool false => ['f', 'a', 'l', 's', 'e']
  | .number value => value.jsonText
  | .string text => quoted text
  | .array [] => ['[', ']']
  | .array (item :: rest) =>
    '[' :: (newLine (depth + 1) ++ prettyAt (depth + 1) item ++ prettyItems depth rest)
  | .object [] => ['{', '}']
  | .object ((name, value) :: rest) =>
    '{' :: (newLine (depth + 1) ++ quoted name ++ ':' :: ' '
      :: (prettyAt (depth + 1) value ++ prettyMembers depth rest))

def prettyItems (depth : Nat) : List Value → List Char
  | [] => newLine depth ++ [']']
  | item :: rest =>
    ',' :: (newLine (depth + 1) ++ prettyAt (depth + 1) item ++ prettyItems depth rest)

def prettyMembers (depth : Nat) : List (String × Value) → List Char
  | [] => newLine depth ++ ['}']
  | (name, value) :: rest =>
    ',' :: (newLine (depth + 1) ++ quoted name ++ ':' :: ' '
      :: (prettyAt (depth + 1) value ++ prettyMembers depth rest))

end

def write (value : Value) : String := String.ofList (compact value)

def writePretty (value : Value) : String := String.ofList (prettyAt 0 value)

end Json

namespace Value

/-- The text of a value for people and style sheets: a string bare, a number without an
exponent, null by its name, and a container as compact JSON. -/
def displayText : Value → String
  | .null => "null"
  | .bool true => "true"
  | .bool false => "false"
  | .number value => String.ofList value.displayText
  | .string text => text
  | container => Json.write container

/-- The text of one printed value: a string bare, anything else as pretty JSON. -/
def printedText : Value → String
  | .string text => text
  | other => Json.writePretty other

end Value

end DesignTokens
