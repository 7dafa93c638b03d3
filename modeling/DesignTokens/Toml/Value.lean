/-
TOML values and tables.

A table is a list of named values with distinct names. A date-time is kept as
the text that stood in the document.
-/
import DesignTokens.Members
import DesignTokens.Number.Basic

namespace DesignTokens

namespace Toml

/-- The first whole number that is too large for an integer of 64 bits. -/
def integerLimit : Nat := 9223372036854775808

inductive Value
  | string (text : String)
  | integer (value : Int)
  | float (value : Number)
  | boolean (flag : Bool)
  | dateTime (text : String)
  | array (items : List Value)
  | table (entries : List (String × Value))

abbrev Table := List (String × Value)

def Value.isTable : Value → Bool
  | .table _ => true
  | _ => false

/-- Whether a value is a non-empty array of tables, which a document may write as headed
tables. -/
def Value.isTableArray : Value → Bool
  | .array items => !items.isEmpty && items.all Value.isTable
  | _ => false

end Toml

end DesignTokens
