/-
Dotted paths in a token tree.

A path is followed segment by segment from group to group; it never enters a
token, even one whose value is an object. The paths of a tree are the names of
its nodes from the root down, and every node that a lookup finds stands under
one of them.
-/
import DesignTokens.Text.Segments
import DesignTokens.Tree.Basic

namespace DesignTokens

/-! ### Lookup -/

def descend? : List (String × TokenNode) → List String → Option TokenNode
  | _, [] => none
  | children, [segment] => children.lookup segment
  | children, segment :: rest =>
    match children.lookup segment with
    | some (.group _ inner) => descend? inner rest
    | _ => none

def TokenTree.lookup? (tree : TokenTree) (path : String) : Option TokenNode :=
  descend? tree.children (segments path)

/-! ### The paths of a tree -/

mutual

def TokenNode.namePaths : TokenNode → List (List String)
  | .leaf _ => []
  | .group _ children => childNamePaths children

def childNamePaths : List (String × TokenNode) → List (List String)
  | [] => []
  | (name, node) :: rest =>
    [name] :: (node.namePaths.map (name :: ·) ++ childNamePaths rest)

end

def TokenTree.paths (tree : TokenTree) : List String :=
  (childNamePaths tree.children).map joinSegments

private theorem mem_childNamePaths_of_lookup {name : String} {node : TokenNode}
    {children : List (String × TokenNode)} (found : children.lookup name = some node) :
    [name] ∈ childNamePaths children ∧
      ∀ below ∈ node.namePaths, name :: below ∈ childNamePaths children := by
  induction children with
  | nil => simp at found
  | cons head tail ih =>
    obtain ⟨other, kept⟩ := head
    rw [List.lookup_cons] at found
    split at found
    · rename_i same
      obtain rfl := beq_iff_eq.mp same
      obtain rfl := Option.some.inj found
      constructor
      · simp [childNamePaths]
      · intro below present
        simp [childNamePaths, present]
    · obtain ⟨here, deeper⟩ := ih found
      constructor
      · simp [childNamePaths, here]
      · intro below present
        simp [childNamePaths, deeper below present]

private theorem mem_childNamePaths_of_descend {children : List (String × TokenNode)}
    {parts : List String} {node : TokenNode} (found : descend? children parts = some node) :
    parts ∈ childNamePaths children := by
  induction parts generalizing children with
  | nil => simp [descend?] at found
  | cons segment rest ih =>
    cases rest with
    | nil => exact (mem_childNamePaths_of_lookup found).1
    | cons next more =>
      rw [descend?] at found
      · split at found
        · rename_i kind inner atSegment
          exact (mem_childNamePaths_of_lookup atSegment).2 _ (ih found)
        · contradiction
      · simp

theorem TokenTree.mem_paths_of_lookup {tree : TokenTree} {path : String} {node : TokenNode}
    (found : tree.lookup? path = some node) : path ∈ tree.paths := by
  rw [← joinSegments_segments path]
  exact List.mem_map_of_mem (mem_childNamePaths_of_descend found)

end DesignTokens
