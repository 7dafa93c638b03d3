/-
Places in a tree and the paths that lead to them.

A place is a list of names, from the root through nested groups to a node. A
path is a text, and it is the text that a lookup cuts at its dots. Joining the
names of a place by dots gives a path that is cut into the same names again, as
long as none of them has a dot in it. So lookups find exactly the nodes at places
without dots, each of them under a path of its own, and what stands at or below
a dotted name plays no part in any lookup.
-/
import DesignTokens.Proofs.Tree.Descent

namespace DesignTokens

/-! ### Cutting and joining -/

/-- None of the names has a dot in it. -/
def Undotted (names : List String) : Prop := ∀ name ∈ names, '.' ∉ name.toList

theorem not_mem_of_mem_splitOn {mark : Char} {text : List Char} :
    ∀ piece ∈ text.splitOn mark, mark ∉ piece := by
  induction text with
  | nil => simp
  | cons c rest ih =>
      intro piece present
      rw [List.splitOn_cons_eq_if_modifyHead] at present
      by_cases cut : c = mark
      · rw [if_pos (beq_iff_eq.mpr cut)] at present
        rcases List.mem_cons.mp present with empty | later
        · rw [empty]
          exact List.not_mem_nil
        · exact ih piece later
      · rw [if_neg (mt beq_iff_eq.mp cut)] at present
        cases pieces : rest.splitOn mark with
        | nil => exact absurd pieces (List.splitOn_ne_nil mark rest)
        | cons first others =>
            rw [pieces] at ih present
            rw [List.modifyHead_cons] at present
            rcases List.mem_cons.mp present with longer | later
            · rw [longer, List.mem_cons, not_or]
              exact ⟨Ne.symm cut, ih first List.mem_cons_self⟩
            · exact ih piece (List.mem_cons_of_mem first later)

theorem undotted_segments (path : String) : Undotted (segments path) := by
  intro name present
  obtain ⟨piece, among, rfl⟩ := List.mem_map.mp present
  rw [String.toList_ofList]
  exact not_mem_of_mem_splitOn piece among

theorem segments_joinSegments {names : List String} (undotted : Undotted names)
    (nonempty : names ≠ []) : segments (joinSegments names) = names := by
  have pieces : ∀ piece ∈ names.map String.toList, '.' ∉ piece := by
    intro piece present
    obtain ⟨name, among, rfl⟩ := List.mem_map.mp present
    exact undotted name among
  have cut := List.splitOn_intercalate '.' pieces (mt List.map_eq_nil_iff.mp nonempty)
  rw [segments, joinSegments, String.toList_ofList, cut, List.map_map]
  simp [Function.comp_def]

/-! ### Places -/

/-- The names lead from the children of a group through nested groups to a node. -/
inductive LeadsTo : List (String × TokenNode) → List String → TokenNode → Prop
  | last {children : List (String × TokenNode)} {name : String} {node : TokenNode}
      (named : children.lookup name = some node) : LeadsTo children [name] node
  | through {children inner : List (String × TokenNode)} {name : String} {kind : Option String}
      {names : List String} {node : TokenNode}
      (named : children.lookup name = some (.group kind inner))
      (onward : LeadsTo inner names node) : LeadsTo children (name :: names) node

/-- The tree has the node at the place. -/
def TokenTree.Holds (tree : TokenTree) (names : List String) (node : TokenNode) : Prop :=
  LeadsTo tree.children names node

namespace LeadsTo

variable {children : List (String × TokenNode)} {names : List String} {node : TokenNode}

theorem nonempty (leads : LeadsTo children names node) : names ≠ [] := by
  cases leads <;> exact List.cons_ne_nil _ _

theorem descend?_eq (leads : LeadsTo children names node) :
    descend? children names = some node := by
  induction leads with
  | last named => exact named
  | through named onward ih =>
      cases onward with
      | last =>
          rw [descend?, named]
          · exact ih
          · simp
      | through =>
          rw [descend?, named]
          · exact ih
          · simp

/-- A place below a place: what stands at the upper one is a group. -/
theorem exists_group {above below : List String} (leads : LeadsTo children (above ++ below) node)
    (start : above ≠ []) (further : below ≠ []) :
    ∃ kind inner, LeadsTo children above (.group kind inner) ∧ LeadsTo inner below node := by
  induction above generalizing children with
  | nil => exact absurd rfl start
  | cons name rest ih =>
      rw [List.cons_append] at leads
      cases rest with
      | nil =>
          cases leads with
          | last => exact absurd rfl further
          | through named onward => exact ⟨_, _, .last named, onward⟩
      | cons next more =>
          cases leads with
          | through named onward =>
              obtain ⟨kind, inner, toGroup, inside⟩ := ih onward (List.cons_ne_nil next more)
              exact ⟨kind, inner, .through named toGroup, inside⟩

end LeadsTo

theorem leadsTo_of_descend {children : List (String × TokenNode)} {names : List String}
    {node : TokenNode} (found : descend? children names = some node) :
    LeadsTo children names node := by
  induction names generalizing children with
  | nil => cases found
  | cons name rest ih =>
      cases rest with
      | nil => exact .last found
      | cons next more =>
          rw [descend?] at found
          · split at found
            · rename_i kind inner named
              exact .through named (ih found)
            · cases found
          · simp

theorem descend?_eq_some_iff {children : List (String × TokenNode)} {names : List String}
    {node : TokenNode} : descend? children names = some node ↔ LeadsTo children names node :=
  ⟨leadsTo_of_descend, LeadsTo.descend?_eq⟩

/-! ### Trees without dotted names -/

mutual

/-- The node without the children of dotted names, in every group. -/
def TokenNode.withoutDotted : TokenNode → TokenNode
  | .leaf token => .leaf token
  | .group kind children => .group kind (childrenWithoutDotted children)

def childrenWithoutDotted : List (String × TokenNode) → List (String × TokenNode)
  | [] => []
  | (name, node) :: rest =>
    if '.' ∈ name.toList then childrenWithoutDotted rest
    else (name, node.withoutDotted) :: childrenWithoutDotted rest

end

def TokenTree.withoutDotted (tree : TokenTree) : TokenTree :=
  { tree with children := childrenWithoutDotted tree.children }

theorem lookup_childrenWithoutDotted {name : String} (undotted : '.' ∉ name.toList)
    (children : List (String × TokenNode)) :
    (childrenWithoutDotted children).lookup name =
      (children.lookup name).map TokenNode.withoutDotted := by
  induction children with
  | nil => rfl
  | cons head tail ih =>
      obtain ⟨other, node⟩ := head
      rw [childrenWithoutDotted, List.lookup_cons]
      by_cases dotted : '.' ∈ other.toList
      · have differs : name ≠ other := by
          rintro rfl
          exact undotted dotted
        rw [if_pos dotted, beq_eq_false_iff_ne.mpr differs]
        exact ih
      · rw [if_neg dotted, List.lookup_cons, ih]
        cases name == other <;> rfl

theorem descend?_withoutDotted {names : List String} (undotted : Undotted names)
    (children : List (String × TokenNode)) :
    descend? (childrenWithoutDotted children) names =
      (descend? children names).map TokenNode.withoutDotted := by
  induction names generalizing children with
  | nil => rfl
  | cons name rest ih =>
      obtain ⟨first, later⟩ := List.forall_mem_cons.mp undotted
      have here := lookup_childrenWithoutDotted first children
      cases rest with
      | nil => exact here
      | cons next more =>
          rw [descend?, descend?, here]
          · cases children.lookup name with
            | none => rfl
            | some node =>
                cases node with
                | leaf token => rfl
                | group kind inner => exact ih later inner
          · simp
          · simp

/-! ### Lookups -/

namespace TokenTree

variable {tree : TokenTree} {path : String} {node : TokenNode}

theorem lookup?_eq_some_iff_segments :
    tree.lookup? path = some node ↔ tree.Holds (segments path) node :=
  descend?_eq_some_iff

theorem exists_place_of_lookup (found : tree.lookup? path = some node) :
    ∃ names, tree.Holds names node ∧ Undotted names ∧ path = joinSegments names :=
  ⟨segments path, lookup?_eq_some_iff_segments.mp found, undotted_segments path,
    (joinSegments_segments path).symm⟩

theorem Holds.lookup? {names : List String} (holds : tree.Holds names node)
    (undotted : Undotted names) : tree.lookup? (joinSegments names) = some node := by
  rw [lookup?_eq_some_iff_segments, segments_joinSegments undotted (LeadsTo.nonempty holds)]
  exact holds

theorem lookup?_below_leaf {token : Token} (leaf : tree.lookup? path = some (.leaf token))
    (more : String) : tree.lookup? (path ++ "." ++ more) = none := by
  cases found : tree.lookup? (path ++ "." ++ more) with
  | none => rfl
  | some node =>
      have below := lookup?_eq_some_iff_segments.mp found
      rw [segments_dotted] at below
      obtain ⟨kind, inner, group, -⟩ :=
        LeadsTo.exists_group below (segments_ne_nil path) (segments_ne_nil more)
      cases leaf.symm.trans (lookup?_eq_some_iff_segments.mpr group)

/-- A path finds a node exactly when it joins the names of a place of the node, and none of them
has a dot. Different places have different paths, nothing is found below a token, and the tree
without its dotted names has the same lookups. -/
theorem lookup?_iff_holds (tree : TokenTree) :
    (∀ path node, tree.lookup? path = some node ↔
      ∃ names, tree.Holds names node ∧ Undotted names ∧ path = joinSegments names) ∧
    (∀ names others node other, tree.Holds names node → tree.Holds others other →
      Undotted names → Undotted others → joinSegments names = joinSegments others →
        names = others ∧ node = other) ∧
    (∀ path token more, tree.lookup? path = some (.leaf token) →
      tree.lookup? (path ++ "." ++ more) = none) ∧
    ∀ path, tree.withoutDotted.lookup? path =
      (tree.lookup? path).map TokenNode.withoutDotted := by
  refine ⟨fun path node => ⟨exists_place_of_lookup, ?_⟩, ?_, ?_, ?_⟩
  · rintro ⟨names, holds, undotted, rfl⟩
    exact holds.lookup? undotted
  · intro names others node other holds holdsOther undotted undottedOther joined
    have place : names = others := by
      rw [← segments_joinSegments undotted (LeadsTo.nonempty holds), joined,
        segments_joinSegments undottedOther (LeadsTo.nonempty holdsOther)]
    have found := holds.lookup? undotted
    rw [joined, holdsOther.lookup? undottedOther] at found
    exact ⟨place, (Option.some.inj found).symm⟩
  · intro path token more leaf
    exact lookup?_below_leaf leaf more
  · intro path
    exact descend?_withoutDotted (undotted_segments path) tree.children

/-- A token under a dotted name, beside a group whose children have the same path and the empty
name. -/
def sharedPathTree : TokenTree :=
  (empty.insert "ink.soft" (.raw (.string "#888888"))).insert "ink"
    (.group none [("soft", .raw (.object [("hue", .null)])), ("", .raw (.bool true))])

theorem lookup_of_sharedPathTree :
    let hue := TokenNode.raw (.object [("hue", .null)])
    sharedPathTree.Holds ["ink.soft"] (.raw (.string "#888888")) ∧
      sharedPathTree.Holds ["ink", "soft"] hue ∧
      sharedPathTree.lookup? "ink.soft" = some hue ∧
      sharedPathTree.lookup? "ink.soft.hue" = none ∧
      sharedPathTree.lookup? "ink." = some (.raw (.bool true)) ∧
      sharedPathTree.withoutDotted.lookup? "ink.soft" = some hue := by
  intro hue
  have soft : sharedPathTree.Holds ["ink", "soft"] hue := .through rfl (.last rfl)
  have unnamed : sharedPathTree.Holds ["ink", ""] (.raw (.bool true)) := .through rfl (.last rfl)
  obtain ⟨found, -, stops, same⟩ := lookup?_iff_holds sharedPathTree
  have atSoft : sharedPathTree.lookup? "ink.soft" = some hue :=
    (found _ _).mpr ⟨["ink", "soft"], soft, by unfold Undotted; decide, by decide⟩
  refine ⟨.last rfl, soft, atSoft, stops "ink.soft" _ "hue" atSoft, ?_, ?_⟩
  · exact (found _ _).mpr ⟨["ink", ""], unnamed, by unfold Undotted; decide, by decide⟩
  · rw [same, atSoft]
    rfl

end TokenTree

end DesignTokens
