/-
File paths as texts.

A relative path is appended to its directory with one slash between; an
absolute one stands alone. The parent of a path is the path without its last
name, without the slashes and the single dots before that name. Paths are never
otherwise changed, since they are shown as they were given.
-/

namespace DesignTokens

/-- The path of a name relative to a directory, which is nowhere when its text is empty. -/
def joinPath (directory relative : String) : String :=
  match relative.toList, directory.toList.getLast? with
  | '/' :: _, _ => relative
  | _, none => relative
  | _, some '/' => directory ++ relative
  | _, some _ => directory ++ "/" ++ relative

/-- A reversed path without the slashes and single dots that end it; the slash or the dot that a
path starts with stays. -/
def dropSeparators : List Char → List Char
  | '/' :: c :: rest => dropSeparators (c :: rest)
  | '.' :: '/' :: rest => dropSeparators ('/' :: rest)
  | text => text

def parentPath (path : String) : String :=
  let named := dropSeparators path.toList.reverse
  String.ofList (dropSeparators (named.dropWhile (· ≠ '/'))).reverse

end DesignTokens
