/-
Trees without their metadata.

The bare tree keeps the names and the values of a tree and none of its kinds and
descriptions. A node matches another one when it is well-formed and both are
equal once they are bare, so the children of matching groups match in some
order, and the tokens have matching values. What a path leads to and the value of
a node cannot tell matching nodes apart.
-/
import DesignTokens.Proofs.Tree.WellFormed
import DesignTokens.Proofs.Value.Equality

namespace DesignTokens

mutual

/-- The node without the kinds and descriptions in it. -/
def TokenNode.bare : TokenNode → TokenNode
  | .leaf token => .raw token.value
  | .group _ children => .group none (bareChildren children)

def bareChildren : List (String × TokenNode) → List (String × TokenNode)
  | [] => []
  | (name, node) :: rest => (name, node.bare) :: bareChildren rest

end

def TokenTree.bare (tree : TokenTree) : TokenTree := ⟨none, bareChildren tree.children⟩

/-! ### Equality of bare children -/

theorem bareChildren_eq_map (children : List (String × TokenNode)) :
    bareChildren children = children.map fun (name, node) => (name, node.bare) := by
  induction children with
  | nil => rfl
  | cons head tail ih => rw [bareChildren, ih, List.map_cons]

theorem length_bareChildren (children : List (String × TokenNode)) :
    (bareChildren children).length = children.length := by
  rw [bareChildren_eq_map, List.length_map]

theorem lookup_bareChildren (children : List (String × TokenNode)) (name : String) :
    (bareChildren children).lookup name = (children.lookup name).map TokenNode.bare := by
  rw [bareChildren_eq_map]
  exact lookup_map_items children TokenNode.bare name

theorem childrenWithin_bareChildren {left right : List (String × TokenNode)} :
    childrenWithin (bareChildren left) (bareChildren right) = true ↔
      ∀ name node, (name, node) ∈ left →
        ∃ other, right.lookup name = some other ∧ node.bare.equals other.bare = true := by
  induction left with
  | nil => simp [bareChildren, childrenWithin]
  | cons head tail ih =>
      obtain ⟨name, node⟩ := head
      rw [bareChildren, childrenWithin, Bool.and_eq_true, ih, lookup_bareChildren,
        forall_mem_members_cons]
      refine and_congr_left fun _ => ?_
      cases right.lookup name <;> simp

/-! ### Matching nodes -/

namespace TokenNode

/-- The node is well-formed and, without metadata, equal to the other. -/
def Matches (node other : TokenNode) : Prop :=
  node.WellFormed ∧ node.bare.equals other.bare = true

theorem matches_leaf_iff {token other : Token} :
    (leaf token).Matches (.leaf other) ↔ token.value.Matches other.value := by
  have values : (leaf token).bare.equals (leaf other).bare =
      token.value.equals other.value := by
    simp [bare, raw, equals, Token.equals, Token.raw]
  rw [Matches, values, WellFormed, Value.Matches]

theorem matches_group_iff {kind otherKind : Option String}
    {children others : List (String × TokenNode)} :
    (group kind children).Matches (.group otherKind others) ↔
      DistinctNames children ∧ SameMembers Matches children others := by
  have bareEqual : (group kind children).bare.equals (group otherKind others).bare = true ↔
      children.length = others.length ∧
        childrenWithin (bareChildren children) (bareChildren others) = true := by
    simp [bare, equals, length_bareChildren]
  rw [Matches, bareEqual, childrenWithin_bareChildren, WellFormed]
  constructor
  · rintro ⟨⟨distinct, wellFormed⟩, count, within⟩
    refine ⟨distinct, .of_lookup distinct count ?_⟩
    intro name node present
    obtain ⟨other, found, same⟩ := within name node present
    exact ⟨other, found, wellFormed.of_mem present, same⟩
  · rintro ⟨distinct, same⟩
    have each (name : String) (node : TokenNode) (present : (name, node) ∈ children) :=
      same.exists_of_mem distinct present
    refine ⟨⟨distinct, childrenWellFormed_iff.mpr ?_⟩, same.length_eq, ?_⟩
    · intro name node present
      obtain ⟨other, -, matched⟩ := each name node present
      exact matched.1
    · intro name node present
      obtain ⟨other, found, matched⟩ := each name node present
      exact ⟨other, found, matched.2⟩

/-- The shapes of two nodes that match. -/
inductive SameShape : TokenNode → TokenNode → Prop
  | leaf {token other : Token} (same : token.value.Matches other.value) :
      SameShape (.leaf token) (.leaf other)
  | group {kind otherKind : Option String} {children others : List (String × TokenNode)}
      (distinct : DistinctNames children) (same : SameMembers Matches children others) :
      SameShape (.group kind children) (.group otherKind others)

theorem Matches.shape {node other : TokenNode} (matched : node.Matches other) :
    SameShape node other := by
  cases node with
  | leaf token =>
      cases other with
      | leaf another => exact .leaf (matches_leaf_iff.mp matched)
      | group => cases matched.2
  | group kind children =>
      cases other with
      | leaf => cases matched.2
      | group otherKind others =>
          obtain ⟨distinct, same⟩ := matches_group_iff.mp matched
          exact .group distinct same

end TokenNode

/-! ### Values of matching nodes -/

theorem childValues_perm {children others : List (String × TokenNode)}
    (reordered : children.Perm others) : (childValues children).Perm (childValues others) := by
  rw [childValues_eq_map, childValues_eq_map]
  exact reordered.map _

mutual

theorem TokenNode.Matches.toValue :
    (node other : TokenNode) → node.Matches other → node.toValue.Matches other.toValue
  | .leaf token, other, matched => by
      cases matched.shape with
      | leaf same =>
          rw [TokenNode.toValue, TokenNode.toValue]
          exact same
  | .group kind children, other, matched => by
      cases matched.shape with
      | group distinct same =>
          obtain ⟨arranged, reordered, each⟩ := same
          rw [TokenNode.toValue, TokenNode.toValue]
          refine Value.matches_object_iff.mpr ⟨?_, ?_⟩
          · rw [DistinctNames, memberNames_childValues]
            exact distinct
          · exact ⟨childValues arranged, childValues_perm reordered,
              childValues_matches children arranged each⟩

theorem childValues_matches :
    (children others : List (String × TokenNode)) →
      List.Forall₂ (SameNamed TokenNode.Matches) children others →
      List.Forall₂ (SameNamed Value.Matches) (childValues children) (childValues others)
  | [], _, .nil => .nil
  | (_, node) :: rest, _ :: _, .cons first later =>
      .cons ⟨first.1, first.2.toValue node _⟩ (childValues_matches rest _ later)

end

/-! ### Paths into matching trees -/

theorem descend?_rel {children others : List (String × TokenNode)}
    (each : ∀ name, Option.Rel TokenNode.Matches (children.lookup name) (others.lookup name))
    (parts : List String) :
    Option.Rel TokenNode.Matches (descend? children parts) (descend? others parts) := by
  induction parts generalizing children others with
  | nil => simp only [descend?]; exact .none
  | cons segment rest ih =>
      cases rest with
      | nil => exact each segment
      | cons next more =>
          have here := each segment
          rw [descend?, descend?]
          · generalize children.lookup segment = atLeft at here ⊢
            generalize others.lookup segment = atRight at here ⊢
            cases here with
            | none => exact .none
            | some matched =>
                cases matched.shape with
                | leaf => exact .none
                | group distinct same => exact ih (same.lookup distinct)
          · simp
          · simp

namespace TokenTree

/-- The trees match as groups. -/
def Matches (tree other : TokenTree) : Prop := tree.toNode.Matches other.toNode

theorem matches_iff {tree other : TokenTree} :
    tree.Matches other ↔ tree.WellFormed ∧ tree.bare.equals other.bare = true := by
  rw [Matches, TokenNode.Matches, WellFormed, equals, toNode, toNode, TokenNode.bare,
    TokenNode.bare]
  rfl

theorem Matches.lookup?_rel {tree other : TokenTree} (matched : tree.Matches other)
    (path : String) : Option.Rel TokenNode.Matches (tree.lookup? path) (other.lookup? path) := by
  obtain ⟨distinct, same⟩ := TokenNode.matches_group_iff.mp matched
  exact descend?_rel (same.lookup distinct) (segments path)

end TokenTree

end DesignTokens
