/-
TOML values as records of named fields.

A record is a table with its fields as entries, or an array with its fields in
their order; a date-time is a record without any field. Fields that are not
named are ignored, and so are items of an array beyond the named fields.
-/
import DesignTokens.Toml.Value

namespace DesignTokens

namespace Toml

def Value.record? (names : List String) : Value → Option Table
  | .table entries => some entries
  | .array items => some (names.zip items)
  | .dateTime _ => some []
  | _ => none

def optionalText? (name : String) (fields : Table) : Option (Option String) :=
  match fields.lookup name with
  | none => some none
  | some (.string text) => some (some text)
  | some _ => none

def requiredText? (name : String) (fields : Table) : Option String :=
  (optionalText? name fields).join

def optionalItems? (name : String) (fields : Table) : Option (List Value) :=
  match fields.lookup name with
  | none => some []
  | some (.array items) => some items
  | some _ => none

def readAll? {α : Type} (read : Value → Option α) : List Value → Option (List α)
  | [] => some []
  | value :: rest =>
    match read value, readAll? read rest with
    | some first, some others => some (first :: others)
    | _, _ => none

end Toml

end DesignTokens
