/-
Reading a TOML document.

The tokens of a document are read one after another by a machine that knows the
table whose header came last and the keys, arrays and inline tables that are
open. Line ends stand between statements and inside arrays, not inside inline
tables; a comma may end an array but not an inline table.

Reading either gives the table of the complete document or nothing.
-/
import DesignTokens.Toml.Document
import DesignTokens.Toml.Scalar
import DesignTokens.Toml.Token

namespace DesignTokens

namespace Toml

/-- A bound on the depth of arrays and inline tables and on the parts of a key; it is not
reached. -/
def nestingLimit : Nat := 80

/-! ### Keys -/

/-- A key that is being read: its parts, and whether a part must follow. -/
structure KeyReading where
  parts : List String
  expectsPart : Bool

namespace KeyReading

def start : KeyReading := ⟨[], true⟩

def addPart (key : KeyReading) (part : String) : Option KeyReading :=
  if key.expectsPart then some ⟨key.parts ++ [part], false⟩ else none

def addDot (key : KeyReading) : Option KeyReading :=
  if key.expectsPart then none else some { key with expectsPart := true }

/-- The key with a bare part, which may be empty next to a dot. -/
def addBare (key : KeyReading) (text : List Char) : Option KeyReading :=
  if text.isEmpty then some key
  else if text.all isBareKeyChar then key.addPart (String.ofList text)
  else none

def addDottedParts (key : KeyReading) : List (List Char) → Option KeyReading
  | [] => some key
  | text :: rest => do
    let dotted ← key.addDot
    let next ← dotted.addBare text
    next.addDottedParts rest

def addWord (key : KeyReading) (word : List Char) : Option KeyReading :=
  match word.splitOn '.' with
  | [] => some key
  | first :: rest => (key.addBare first).bind (·.addDottedParts rest)

def finish? (key : KeyReading) : Option (List String) :=
  if key.expectsPart || nestingLimit ≤ key.parts.length then none else some key.parts

end KeyReading

/-! ### The machine -/

inductive Frame
  | statement (key : List String)
  | array (before : List Value)
  | inlineTable (entries : Entries) (key : List String)

inductive Awaiting
  | statement
  | lineEnd
  | header
  | headerKey (ofElement : Bool) (key : KeyReading)
  | headerEnd (key : List String)
  | key (key : KeyReading)
  | value
  | item
  | firstInlineKey
  | inlineKey (entries : Entries) (key : KeyReading)
  | afterValue (value : Value)

/-- The state of the machine: the document so far, the header that came last, what it awaits,
and what is open from the inside out. -/
structure Machine where
  root : Entries
  current : List String
  awaiting : Awaiting
  frames : List Frame

namespace Machine

def initial : Machine := ⟨[], [], .statement, []⟩

def enter (machine : Machine) (key : List String)
    (change : String → Entries → Option Entries) : Option Machine :=
  match key.getLast? with
  | none => none
  | some name =>
    (changeAt (change name) key.dropLast machine.root).map fun root =>
      ⟨root, key, .lineEnd, []⟩

def addUnder (key : List String) (value : Value) (entries : Entries) : Option Entries :=
  key.getLast?.bind fun name => addDotted name value key.dropLast entries

def complete (machine : Machine) (value : Value) : Option Machine :=
  match machine.frames with
  | [.statement key] =>
    (changeAt (addUnder key value) machine.current machine.root).map fun root =>
      ⟨root, machine.current, .lineEnd, []⟩
  | _ => some { machine with awaiting := .afterValue value }

def openContainer (machine : Machine) (awaiting : Awaiting) (frames : List Frame) :
    Option Machine :=
  if machine.frames.length < nestingLimit then
    some { machine with awaiting := awaiting, frames := frames }
  else none

def startValue (machine : Machine) : Token → Option Machine
  | .string text => machine.complete (.string text)
  | .lines text => machine.complete (.string text)
  | .word text => (readWord? text).bind machine.complete
  | .openBracket => machine.openContainer .item (.array [] :: machine.frames)
  | .openBrace => machine.openContainer .firstInlineKey machine.frames
  | _ => none

def afterValue (machine : Machine) (value : Value) (token : Token) : Option Machine :=
  match machine.frames, token with
  | .array before :: frames, .comma =>
    some { machine with awaiting := .item, frames := .array (value :: before) :: frames }
  | .array before :: frames, .closeBracket =>
    { machine with frames := frames }.complete (.array (value :: before).reverse)
  | .array _ :: _, .lineEnd => some machine
  | .inlineTable entries key :: frames, .comma =>
    (addUnder key value entries).map fun entries =>
      { machine with awaiting := .inlineKey entries .start, frames := frames }
  | .inlineTable entries key :: frames, .closeBrace =>
    (addUnder key value entries).bind fun entries =>
      { machine with frames := frames }.complete (.table (entryValues entries))
  | _, _ => none

def startItem (machine : Machine) (token : Token) : Option Machine :=
  match machine.frames, token with
  | .array before :: frames, .closeBracket =>
    { machine with frames := frames }.complete (.array before.reverse)
  | _, .lineEnd => some machine
  | _, token => machine.startValue token

def extendKey (key : KeyReading) : Token → Option KeyReading
  | .word text => key.addWord text
  | .string text => key.addPart text
  | _ => none

def stepInlineKey (machine : Machine) (entries : Entries) (key : KeyReading)
    (token : Token) : Option Machine :=
  match token with
  | .equals => key.finish?.map fun parts =>
      { machine with awaiting := .value, frames := .inlineTable entries parts :: machine.frames }
  | token => (extendKey key token).map fun key =>
      { machine with awaiting := .inlineKey entries key }

def stepKey (machine : Machine) (key : KeyReading) (token : Token) : Option Machine :=
  match token with
  | .equals => key.finish?.map fun parts =>
      { machine with awaiting := .value, frames := [.statement parts] }
  | token => (extendKey key token).map fun key => { machine with awaiting := .key key }

def stepHeaderKey (machine : Machine) (ofElement : Bool) (key : KeyReading) (token : Token) :
    Option Machine :=
  match token with
  | .closeBracket => key.finish?.bind fun parts =>
      if ofElement then some { machine with awaiting := .headerEnd parts }
      else machine.enter parts headTable
  | token => (extendKey key token).map fun key =>
      { machine with awaiting := .headerKey ofElement key }

def stepSolid (machine : Machine) (token : Token) : Option Machine :=
  match machine.awaiting with
  | .statement =>
    match token with
    | .lineEnd => some machine
    | .openBracket => some { machine with awaiting := .header }
    | token => machine.stepKey .start token
  | .lineEnd =>
    match token with
    | .lineEnd => some { machine with awaiting := .statement }
    | _ => none
  | .header =>
    match token with
    | .openBracket => some { machine with awaiting := .headerKey true .start }
    | token => machine.stepHeaderKey false .start token
  | .headerKey ofElement key => machine.stepHeaderKey ofElement key token
  | .headerEnd key =>
    match token with
    | .closeBracket => machine.enter key addElement
    | _ => none
  | .key key => machine.stepKey key token
  | .value => machine.startValue token
  | .item => machine.startItem token
  | .firstInlineKey =>
    match token with
    | .closeBrace => machine.complete (.table [])
    | token => machine.stepInlineKey [] .start token
  | .inlineKey entries key => machine.stepInlineKey entries key token
  | .afterValue value => machine.afterValue value token

/-- The machine after a blank, which may stand anywhere but between the two brackets of a header
of an element. -/
def stepBlank (machine : Machine) : Option Machine :=
  match machine.awaiting with
  | .header => some { machine with awaiting := .headerKey false .start }
  | .headerEnd _ => none
  | _ => some machine

def step (machine : Machine) : Token → Option Machine
  | .blank => machine.stepBlank
  | token => machine.stepSolid token

def run (machine : Machine) : List Token → Option Machine
  | [] => some machine
  | token :: rest => (machine.step token).bind (·.run rest)

def result? (machine : Machine) : Option Table :=
  match machine.awaiting with
  | .statement => some (entryValues machine.root)
  | .lineEnd => some (entryValues machine.root)
  | _ => none

end Machine

def dropByteOrderMark : List Char → List Char
  | '\uFEFF' :: rest => rest
  | text => text

def read? (text : String) : Option Table := do
  let tokens ← tokens? (dropByteOrderMark text.toList)
  let machine ← Machine.initial.run tokens
  machine.result?

end Toml

end DesignTokens
