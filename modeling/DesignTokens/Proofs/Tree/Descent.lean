/-
Lookups, step by step.

A path with a name appended to it leads to the child of that name, when the
path leads to a group, and nowhere when it does not. This is the step in which
lookups go down a tree, seen from the end of the path; the definition goes down
from its beginning. What passes from a group to its children in such a step holds
of every node that is found.
-/
import DesignTokens.Tree.Path

namespace DesignTokens

theorem segments_dotted (path more : String) :
    segments (path ++ "." ++ more) = segments path ++ segments more := by
  have text : (path ++ "." ++ more).toList = path.toList ++ '.' :: more.toList := by
    simp [String.toList_append]
  rw [segments, text, List.splitOn_append_cons_self, List.map_append, ← segments, ← segments]

theorem segments_child {name : String} (undotted : '.' ∉ name.toList) (path : String) :
    segments (path ++ "." ++ name) = segments path ++ [name] := by
  have alone : segments name = [name] := by
    rw [segments, List.splitOn_eq_singleton undotted, List.map_singleton, String.ofList_toList]
  rw [segments_dotted, alone]

/-- The children of a node, which only a group has. -/
def TokenNode.children? : TokenNode → Option (List (String × TokenNode))
  | .leaf _ => none
  | .group _ children => some children

def TokenNode.child? (node : TokenNode) (name : String) : Option TokenNode :=
  node.children?.bind (·.lookup name)

theorem descend?_concat {parts : List String} (nonempty : parts ≠ [])
    (children : List (String × TokenNode)) (name : String) :
    descend? children (parts ++ [name]) = (descend? children parts).bind (·.child? name) := by
  induction parts generalizing children with
  | nil => exact absurd rfl nonempty
  | cons segment rest ih =>
      cases rest with
      | nil =>
          rw [List.cons_append, List.nil_append, descend?, descend?]
          · cases children.lookup segment with
            | none => rfl
            | some node => cases node <;> rfl
          · simp
      | cons next more =>
          rw [List.cons_append, descend?, descend?]
          · cases children.lookup segment with
            | none => rfl
            | some node =>
                cases node with
                | leaf token => rfl
                | group kind inner => exact ih (List.cons_ne_nil _ _) inner
          · simp
          · simp

theorem TokenTree.lookup?_child (tree : TokenTree) {name : String}
    (undotted : '.' ∉ name.toList) (path : String) :
    tree.lookup? (path ++ "." ++ name) = (tree.lookup? path).bind (·.child? name) := by
  rw [lookup?, segments_child undotted, descend?_concat (segments_ne_nil path)]
  rfl

/-! ### What lookups find -/

section Found

variable {holds : TokenNode → Prop}

theorem holds_of_descend
    (below : ∀ kind children, holds (.group kind children) →
      ∀ name child, children.lookup name = some child → holds child)
    {parts : List String} {kind : Option String} {children : List (String × TokenNode)}
    (whole : holds (.group kind children)) {node : TokenNode}
    (found : descend? children parts = some node) : holds node := by
  induction parts generalizing kind children with
  | nil => cases found
  | cons segment rest ih =>
      cases rest with
      | nil => exact below kind children whole segment node found
      | cons next more =>
          rw [descend?] at found
          · split at found
            · rename_i innerKind inner atSegment
              exact ih (below kind children whole segment _ atSegment) found
            · cases found
          · simp

/-- What passes from a group to its children holds of every node that is found in a tree. -/
theorem TokenTree.holds_of_lookup
    (below : ∀ kind children, holds (.group kind children) →
      ∀ name child, children.lookup name = some child → holds child)
    {tree : TokenTree} (whole : holds tree.toNode) {path : String} {node : TokenNode}
    (found : tree.lookup? path = some node) : holds node :=
  holds_of_descend below whole found

end Found

end DesignTokens
