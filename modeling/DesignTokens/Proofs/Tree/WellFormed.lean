/-
Well-formed trees.

In a well-formed tree each name occurs once in every group and in every object.
Every node that a lookup finds in it is well-formed again. Whether a tree is
well-formed can be computed.
-/
import DesignTokens.Proofs.Tree.Descent
import DesignTokens.Proofs.Value.WellFormed

namespace DesignTokens

/-! ### Nodes of a tree -/

theorem childrenWellFormed_iff {children : List (String × TokenNode)} :
    ChildrenWellFormed children ↔ ∀ name node, (name, node) ∈ children → node.WellFormed := by
  induction children with
  | nil => simp [ChildrenWellFormed]
  | cons head tail ih =>
      obtain ⟨name, node⟩ := head
      rw [ChildrenWellFormed, ih, forall_mem_members_cons]

theorem ChildrenWellFormed.of_mem {children : List (String × TokenNode)}
    (wellFormed : ChildrenWellFormed children) {name : String} {node : TokenNode}
    (present : (name, node) ∈ children) : node.WellFormed :=
  childrenWellFormed_iff.mp wellFormed name node present

theorem TokenNode.WellFormed.child {kind : Option String} {children : List (String × TokenNode)}
    (wellFormed : (TokenNode.group kind children).WellFormed) {name : String} {child : TokenNode}
    (member : children.lookup name = some child) : child.WellFormed := by
  rw [TokenNode.WellFormed] at wellFormed
  exact wellFormed.2.of_mem (mem_of_lookup member)

theorem TokenTree.WellFormed.of_lookup {tree : TokenTree} (wellFormed : tree.WellFormed)
    {path : String} {node : TokenNode} (found : tree.lookup? path = some node) :
    node.WellFormed :=
  tree.holds_of_lookup (fun _ _ group _ _ member => group.child member) wellFormed found

/-! ### Values of nodes -/

theorem childValues_eq_map (children : List (String × TokenNode)) :
    childValues children = children.map fun (name, node) => (name, node.toValue) := by
  induction children with
  | nil => rfl
  | cons head tail ih => rw [childValues, ih, List.map_cons]

theorem memberNames_childValues (children : List (String × TokenNode)) :
    memberNames (childValues children) = memberNames children := by
  rw [childValues_eq_map]
  exact memberNames_map_items children TokenNode.toValue

theorem lookup_childValues (children : List (String × TokenNode)) (name : String) :
    (childValues children).lookup name = (children.lookup name).map TokenNode.toValue := by
  rw [childValues_eq_map]
  exact lookup_map_items children TokenNode.toValue name

mutual

theorem TokenNode.wellFormed_toValue :
    (node : TokenNode) → node.WellFormed → node.toValue.WellFormed
  | .leaf _, wellFormed => wellFormed
  | .group kind children, wellFormed => by
      rw [TokenNode.WellFormed] at wellFormed
      rw [TokenNode.toValue, Value.WellFormed, DistinctNames, memberNames_childValues]
      exact ⟨wellFormed.1, membersWellFormed_childValues children wellFormed.2⟩

theorem membersWellFormed_childValues :
    (children : List (String × TokenNode)) → ChildrenWellFormed children →
      Value.MembersWellFormed (childValues children)
  | [], _ => trivial
  | (_, node) :: rest, wellFormed =>
      ⟨node.wellFormed_toValue wellFormed.1, membersWellFormed_childValues rest wellFormed.2⟩

end

/-! ### Computing well-formedness -/

mutual

def TokenNode.decideWellFormed : (node : TokenNode) → Decidable node.WellFormed
  | .leaf token => inferInstanceAs (Decidable token.value.WellFormed)
  | .group _ children => @instDecidableAnd _ _ _ (decideChildrenWellFormed children)

def decideChildrenWellFormed :
    (children : List (String × TokenNode)) → Decidable (ChildrenWellFormed children)
  | [] => .isTrue trivial
  | (_, node) :: rest =>
    @instDecidableAnd _ _ node.decideWellFormed (decideChildrenWellFormed rest)

end

instance (tree : TokenTree) : Decidable tree.WellFormed := tree.toNode.decideWellFormed

end DesignTokens
