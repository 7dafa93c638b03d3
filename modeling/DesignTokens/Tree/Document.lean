/-
Token documents.

A document is an object. An object with a `$value` member is a token, and so is
anything that is not an object; every other object is a group. Names that start
with a dollar sign are metadata and never children. The content of `$value` is
taken as it is.
-/
import DesignTokens.Tree.Basic

namespace DesignTokens

/-- The member that makes an object a token. -/
def valueKey : String := "$value"

def kindKey : String := "$type"

def descriptionKey : String := "$description"

def isMetadataKey (name : String) : Bool :=
  match name.toList with
  | [] => false
  | first :: _ => first = '$'

def textMember? (name : String) (members : List (String × Value)) : Option String :=
  (members.lookup name).bind Value.string?

mutual

def TokenNode.ofValue : Value → TokenNode
  | .object members =>
    match members.lookup valueKey with
    | some value =>
      .leaf ⟨value, textMember? kindKey members, textMember? descriptionKey members⟩
    | none => .group (textMember? kindKey members) (childrenOfMembers members)
  | value => .raw value

def childrenOfMembers : List (String × Value) → List (String × TokenNode)
  | [] => []
  | (name, value) :: rest =>
    if isMetadataKey name then childrenOfMembers rest
    else (name, TokenNode.ofValue value) :: childrenOfMembers rest

end

def TokenTree.ofValue? : Value → Option TokenTree
  | .object members =>
    match members.lookup valueKey with
    | some _ => none
    | none => some ⟨textMember? kindKey members, childrenOfMembers members⟩
  | _ => none

end DesignTokens
