/-
A TOML document while it is being read.

Until the end of a document it matters how each of its tables came to be: under
a header of its own, on the way to another header, or on the way to a dotted
key. A table may be given a header once, unless a dotted key made it; a dotted
key may pass through tables that have no header, and adds its value only to a
table that dotted keys made. Values, among them inline tables and arrays, are
closed: nothing is added to them.
-/
import DesignTokens.Toml.Value

namespace DesignTokens

namespace Toml

inductive Standing
  | headed
  | passed
  | dotted
deriving DecidableEq

/-- A node of a document that is being read: a closed value, a table, or an array of tables with
its last element first. -/
inductive Node
  | value (value : Value)
  | table (standing : Standing) (entries : List (String × Node))
  | elements (tables : List (List (String × Node)))

abbrev Entries := List (String × Node)

/-! ### Adding to a document -/

/-- The entries after a change to the table that a path of headers leads to. Tables that are
missing on the way are made; an array of tables leads to its last element. -/
def changeAt (change : Entries → Option Entries) : List String → Entries → Option Entries
  | [], entries => change entries
  | name :: rest, entries =>
    match entries.lookup name with
    | none => (changeAt change rest []).map fun inner =>
        putMember name (.table .passed inner) entries
    | some (.table standing inner) => (changeAt change rest inner).map fun inner =>
        putMember name (.table standing inner) entries
    | some (.elements (last :: earlier)) => (changeAt change rest last).map fun last =>
        putMember name (.elements (last :: earlier)) entries
    | some _ => none

def headTable (name : String) (entries : Entries) : Option Entries :=
  match entries.lookup name with
  | none => some (putMember name (.table .headed []) entries)
  | some (.table .passed inner) => some (putMember name (.table .headed inner) entries)
  | some _ => none

def addElement (name : String) (entries : Entries) : Option Entries :=
  match entries.lookup name with
  | none => some (putMember name (.elements [[]]) entries)
  | some (.elements tables) => some (putMember name (.elements ([] :: tables)) entries)
  | some _ => none

def addEntry (name : String) (value : Value) (entries : Entries) : Option Entries :=
  match entries.lookup name with
  | none => some (putMember name (.value value) entries)
  | some _ => none

def addDotted (name : String) (value : Value) : List String → Entries → Option Entries
  | [], entries => addEntry name value entries
  | step :: rest, entries =>
    match entries.lookup step with
    | none => (addDotted name value rest []).map fun inner =>
        putMember step (.table .dotted inner) entries
    | some (.table .dotted inner) => (addDotted name value rest inner).map fun inner =>
        putMember step (.table .dotted inner) entries
    | some (.table .passed inner) =>
      if rest.isEmpty then none
      else (addDotted name value rest inner).map fun inner =>
        putMember step (.table .passed inner) entries
    | some (.elements (last :: earlier)) =>
      if rest.isEmpty then none
      else (addDotted name value rest last).map fun last =>
        putMember step (.elements (last :: earlier)) entries
    | some _ => none

/-! ### The finished document -/

mutual

def Node.toValue : Node → Value
  | .value value => value
  | .table _ entries => .table (entryValues entries)
  | .elements tables => .array (elementValues tables).reverse

def entryValues : List (String × Node) → List (String × Value)
  | [] => []
  | (name, node) :: rest => (name, node.toValue) :: entryValues rest

def elementValues : List (List (String × Node)) → List Value
  | [] => []
  | entries :: rest => .table (entryValues entries) :: elementValues rest

end

end Toml

end DesignTokens
