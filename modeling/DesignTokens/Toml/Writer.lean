/-
Writing a TOML document.

A table writes its plain entries first, one `key = value` to a line, and then
its tables and arrays of tables under headers. Entries are written in their
order within these two groups. A header is written for a table that has plain
entries or no entries at all, and for every element of an array of tables, with
a blank line before it unless it starts the document.

Keys and strings take the first form of quotes that holds them, and escapes
only when none does.
-/
import DesignTokens.Number.Text
import DesignTokens.Toml.Value

namespace DesignTokens

namespace Toml

/-! ### Keys and strings -/

/-- A control character; tab and line feed are control characters too. -/
def isControl (c : Char) : Bool := c.toNat < 0x20 || c.toNat == 0x7F

def isHardControl (c : Char) : Bool := isControl c && c ≠ '\t'

def isBareKeyChar (c : Char) : Bool := c.isAlphanum || c = '_' || c = '-'

def upperHexDigit (value : Nat) : Char := (Nat.digitChar value).toUpper

/-- A character inside double quotes; a quotation mark is for the caller to decide. -/
def escapeChar (c : Char) : List Char :=
  if c = '\x08' then ['\\', 'b']
  else if c = '\t' then ['\\', 't']
  else if c = '\n' then ['\\', 'n']
  else if c = '\x0c' then ['\\', 'f']
  else if c = '\r' then ['\\', 'r']
  else if c = '\\' then ['\\', '\\']
  else if isControl c then
    ['\\', 'u', '0', '0', upperHexDigit (c.toNat / 16), upperHexDigit (c.toNat % 16)]
  else [c]

def basicQuoted (text : List Char) : List Char :=
  '"' :: (text.flatMap fun c => if c = '"' then ['\\', '"'] else escapeChar c) ++ ['"']

def literalQuoted (text : List Char) : List Char :=
  '\'' :: text ++ ['\'']

/-- A text between three double quotes; line feeds stay, and the third of three quotation marks
in a row is escaped. The count is how many stand directly before. -/
def escapeLines : Nat → List Char → List Char
  | _, [] => []
  | marks, c :: rest =>
    if c = '"' then
      if marks = 2 then '\\' :: '"' :: escapeLines 0 rest
      else '"' :: escapeLines (marks + 1) rest
    else if c = '\n' then '\n' :: escapeLines 0 rest
    else escapeChar c ++ escapeLines 0 rest

def tripleMark (mark : Char) : List Char := [mark, mark, mark]

/-- A line feed that follows the opening marks when the text has several lines. -/
def openingLine (text : List Char) : List Char :=
  if text.contains '\n' then ['\n'] else []

def basicTriple (text : List Char) : List Char :=
  tripleMark '"' ++ openingLine text ++ escapeLines 0 text ++ tripleMark '"'

def literalTriple (text : List Char) : List Char :=
  tripleMark '\'' ++ openingLine text ++ text ++ tripleMark '\''

/-- Whether a mark stands three times in a row. The count is how many stand directly before. -/
def hasTripleFrom (mark : Char) : Nat → List Char → Bool
  | _, [] => false
  | count, c :: rest =>
    if c = mark then count = 2 || hasTripleFrom mark (count + 1) rest
    else hasTripleFrom mark 0 rest

def hasTriple (mark : Char) (text : List Char) : Bool := hasTripleFrom mark 0 text

def keyText (name : String) : List Char :=
  let text := name.toList
  if !text.isEmpty && text.all isBareKeyChar then text
  else if text.all fun c => !isHardControl c && c ≠ '"' && c ≠ '\\' then basicQuoted text
  else if text.all fun c => !isHardControl c && c ≠ '\'' then literalQuoted text
  else basicQuoted text

def stringText (value : String) : List Char :=
  let text := value.toList
  let plain := text.all fun c => !isHardControl c || c = '\n'
  let lines := text.contains '\n'
  let slashes := text.contains '\\'
  if plain && !lines && !slashes && !text.contains '"' then basicQuoted text
  else if plain && !lines && !text.contains '\'' then literalQuoted text
  else if plain && !slashes && !hasTriple '"' text then basicTriple text
  else if plain && !hasTriple '\'' text then literalTriple text
  else if lines then basicTriple text
  else basicQuoted text

/-! ### Values -/

def itemIndent : List Char := [' ', ' ', ' ', ' ']

def booleanText (flag : Bool) : List Char :=
  if flag then ['t', 'r', 'u', 'e'] else ['f', 'a', 'l', 's', 'e']

mutual

/-- A value after an equals sign or inside another value. An array of two or more items has one
item to a line; a table stands between braces on one line. -/
def valueText : Value → List Char
  | .string text => stringText text
  | .integer value => integerText value
  | .float value => value.tomlText
  | .boolean flag => booleanText flag
  | .dateTime text => text.toList
  | .array [] => ['[', ']']
  | .array [item] => '[' :: valueText item ++ [']']
  | .array items => '[' :: '\n' :: itemLines items ++ [']']
  | .table [] => ['{', '}']
  | .table ((name, value) :: rest) =>
    '{' :: ' ' :: (keyText name ++ [' ', '=', ' '] ++ valueText value ++ inlineEntries rest)

def itemLines : List Value → List Char
  | [] => []
  | item :: rest => itemIndent ++ valueText item ++ [',', '\n'] ++ itemLines rest

def inlineEntries : List (String × Value) → List Char
  | [] => [' ', '}']
  | (name, value) :: rest =>
    ',' :: ' ' :: (keyText name ++ [' ', '=', ' '] ++ valueText value ++ inlineEntries rest)

end

/-! ### Documents -/

/-- A line of a document: an entry, or a header of a table or of an element of an array of
tables. -/
inductive Line
  | entry (name : String) (value : Value)
  | table (path : List String)
  | element (path : List String)

def isHeaded (value : Value) : Bool := value.isTable || value.isTableArray

def plainLines (entries : Table) : List Line :=
  (entries.filter fun entry => !isHeaded entry.2).map fun (name, value) => .entry name value

/-- Whether a table at a path has a header: it has plain entries, or none at all. -/
def hasHeader (entries : Table) : Bool :=
  entries.isEmpty || entries.any fun entry => !isHeaded entry.2

mutual

/-- The lines of an entry that is written under headers; a plain one has none here. -/
def headedLines (path : List String) : Value → List Line
  | .table entries =>
    (if hasHeader entries then [.table path] else []) ++ plainLines entries
      ++ headedEntries path entries
  | .array items =>
    if (Value.array items).isTableArray then elementLines path items else []
  | _ => []

def headedEntries (path : List String) : List (String × Value) → List Line
  | [] => []
  | (name, value) :: rest => headedLines (path ++ [name]) value ++ headedEntries path rest

def elementLines (path : List String) : List Value → List Line
  | [] => []
  | .table entries :: rest =>
    .element path :: (plainLines entries ++ headedEntries path entries) ++ elementLines path rest
  | _ :: rest => elementLines path rest

end

def documentLines (entries : Table) : List Line :=
  plainLines entries ++ headedEntries [] entries

def pathText (path : List String) : List Char :=
  ['.'].intercalate (path.map keyText)

/-- A line of a document; `first` says that nothing stands before it. -/
def lineText (first : Bool) : Line → List Char
  | .entry name value => keyText name ++ [' ', '=', ' '] ++ valueText value ++ ['\n']
  | .table path => (if first then [] else ['\n']) ++ '[' :: pathText path ++ [']', '\n']
  | .element path =>
    (if first then [] else ['\n']) ++ '[' :: '[' :: pathText path ++ [']', ']', '\n']

def write (entries : Table) : String :=
  match documentLines entries with
  | [] => ""
  | line :: rest => String.ofList (lineText true line ++ rest.flatMap (lineText false))

end Toml

end DesignTokens
