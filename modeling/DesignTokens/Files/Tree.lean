/-
Reading files, and a directory of files held in memory.

What a program reads of the file system is given by one function from paths to
contents or to the reason why there is none. `FileTree.read` is such a function
for a directory in memory, which is also the working directory: relative paths
start in it, and nothing outside of it is known but that it is a directory.
-/
import DesignTokens.Members
import DesignTokens.Source.LoadError

namespace DesignTokens

abbrev FileReader (m : Type → Type) := String → m (Except ReadFailure String)

def readsAsDirectory : Except ReadFailure String → Bool
  | .error .isDirectory => true
  | _ => false

def readsAsMissing : Except ReadFailure String → Bool
  | .error .notFound => true
  | .error .notDirectory => true
  | _ => false

inductive FileNode
  | file (text : String)
  | directory (entries : List (String × FileNode))

abbrev FileTree := List (String × FileNode)

namespace FileTree

/-- The names of a path: what stands between its slashes, without single dots. -/
def pathNames (path : String) : List String :=
  ((path.toList.splitOn '/').map String.ofList).filter fun name => name ≠ "" && name ≠ "."

def inner (entries : FileTree) (name : String) : FileTree :=
  match entries.lookup name with
  | some (.directory found) => found
  | _ => []

/-- The entries with a directory at a path; what a directory holds already stays. -/
def putDirectory : List String → FileTree → FileTree
  | [], entries => entries
  | name :: rest, entries =>
    putMember name (.directory (putDirectory rest (inner entries name))) entries

def putFile (text : String) : List String → FileTree → FileTree
  | [], entries => entries
  | [name], entries => putMember name (.file text) entries
  | name :: rest, entries =>
    putMember name (.directory (putFile text rest (inner entries name))) entries

def put (tree : FileTree) (path : String) : Option String → FileTree
  | some text => putFile text (pathNames path) tree
  | none => putDirectory (pathNames path) tree

/-- The tree of paths with their texts; a path without a text is a directory. -/
def ofPaths (paths : List (String × Option String)) : FileTree :=
  paths.foldl (fun tree entry => tree.put entry.1 entry.2) []

/-- Where a path has led so far: a file, or the directories from the innermost out. Above the
outermost one nothing is known. -/
inductive Place
  | file (text : String)
  | directory (chain : List FileTree)

def Place.enter (place : Place) (name : String) : Except ReadFailure Place :=
  match place with
  | .file _ => .error .notDirectory
  | .directory chain =>
    if name = ".." then .ok (.directory chain.tail)
    else
      match chain with
      | [] => .error .notFound
      | here :: _ =>
        match here.lookup name with
        | none => .error .notFound
        | some (.file text) => .ok (.file text)
        | some (.directory inner) => .ok (.directory (inner :: chain))

def Place.follow : Place → List String → Except ReadFailure Place
  | place, [] => .ok place
  | place, name :: rest => (place.enter name).bind (·.follow rest)

/-- Whether a path must lead to a directory: it ends in a slash or in a single dot. -/
def demandsDirectory (path : String) : Bool :=
  match (path.toList.splitOn '/').getLast? with
  | some [] => true
  | some ['.'] => true
  | _ => false

def read (tree : FileTree) (path : String) : Except ReadFailure String :=
  match path.toList with
  | [] => .error .notFound
  | first :: _ =>
    let start := if first = '/' then [] else [tree]
    match (Place.directory start).follow (pathNames path) with
    | .error failure => .error failure
    | .ok (.directory _) => .error .isDirectory
    | .ok (.file text) => if demandsDirectory path then .error .notDirectory else .ok text

end FileTree

end DesignTokens
