/-
Groups and the references to them.

A reference to a path has the expansion of the value at the path, so it does not
matter whether a token is reached by its path or inside the group that holds it.
The search for a child of a group ends where the search for the group ended: an
earlier source with the child would have the group as well.
-/
import DesignTokens.Proofs.Resolution.Alias
import DesignTokens.Proofs.Source.WellFormed
import DesignTokens.Proofs.Tree.Descent

namespace DesignTokens

/-! ### The search for a child -/

theorem firstFound?_child {sources : List Source} {path source name : String}
    {group child : TokenNode} (isGroup : firstFound? sources path = some ⟨source, group⟩)
    (member : group.child? name = some child) (undotted : '.' ∉ name.toList) :
    firstFound? sources (path ++ "." ++ name) = some ⟨source, child⟩ := by
  induction sources with
  | nil => cases isGroup
  | cons head tail ih =>
      have below := head.tree.lookup?_child undotted path
      cases here : head.tree.lookup? path with
      | some node =>
          rw [firstFound?_of_some here] at isGroup
          cases isGroup
          rw [here, Option.bind_some, member] at below
          exact firstFound?_of_some below tail
      | none =>
          rw [firstFound?_of_none here] at isGroup
          rw [here, Option.bind_none] at below
          rw [firstFound?_of_none below]
          exact ih isGroup

namespace SourceRegistry

variable {registry : SourceRegistry}

/-! ### References to defined paths -/

namespace Expands

variable {text path : String} {value : Value} {expansion : Option Value}

theorem to_reference (refers : referencePath? text = some path)
    (found : registry.valueAt? path = some value) (expands : registry.Expands value expansion) :
    registry.Expands (.string text) expansion := by
  cases onward : value.reference? with
  | none => exact .reference refers (.literal found onward) expands
  | some target =>
      -- The value is a reference itself, so its chain goes on where that of `path` does.
      cases expands with
      | text plain => cases plain.symm.trans onward
      | dangling further chain =>
          cases further.symm.trans onward
          exact .dangling refers (.onward found onward chain)
      | reference further chain literal =>
          cases further.symm.trans onward
          exact .reference refers (.onward found onward chain) literal
      | null => cases onward
      | bool => cases onward
      | number => cases onward
      | array => cases onward
      | object => cases onward

theorem of_reference (expands : registry.Expands (.string text) expansion)
    (refers : referencePath? text = some path) (found : registry.valueAt? path = some value)
    (plain : value.reference? = none) : registry.Expands value expansion := by
  have chain : registry.Chain path [path] (some value) := .literal found plain
  cases expands with
  | text plainText => cases plainText.symm.trans refers
  | dangling again dangles =>
      cases again.symm.trans refers
      cases (chain.deterministic dangles).2
  | reference again literal further =>
      cases again.symm.trans refers
      cases (chain.deterministic literal).2
      exact further

end Expands

/-! ### Members of an expansion -/

theorem MembersExpand.memberNames_sublist {members expansions : List (String × Value)}
    (each : registry.MembersExpand members expansions) :
    (memberNames expansions).Sublist (memberNames members) := by
  induction members generalizing expansions with
  | nil =>
      cases each
      exact .slnil
  | cons head tail ih =>
      cases each with
      | kept first later => exact (ih later).cons_cons _
      | dropped first later => exact (ih later).cons _

/-- The member of a name is the expansion of that member, and there is none exactly when that
expansion is undefined. -/
theorem MembersExpand.expands_lookup {members expansions : List (String × Value)}
    (each : registry.MembersExpand members expansions) (distinct : DistinctNames members)
    {name : String} {value : Value} (present : (name, value) ∈ members) :
    registry.Expands value (expansions.lookup name) := by
  induction members generalizing expansions with
  | nil => cases present
  | cons head tail ih =>
      obtain ⟨other, kept⟩ := head
      obtain ⟨absent, rest⟩ := distinctNames_cons.mp distinct
      have differs (inTail : (name, value) ∈ tail) : name ≠ other := by
        rintro rfl
        exact absent (mem_memberNames inTail)
      cases each with
      | @kept _ _ expansion _ expansions first later =>
          rcases List.mem_cons.mp present with same | inTail
          · cases same
            rw [List.lookup_cons_self]
            exact first
          · rw [List.lookup_cons, beq_eq_false_iff_ne.mpr (differs inTail)]
            exact ih later rest inTail
      | dropped first later =>
          rcases List.mem_cons.mp present with same | inTail
          · cases same
            have gone : name ∉ memberNames expansions :=
              fun among => absent (later.memberNames_sublist.subset among)
            rw [lookup_eq_none_of_not_mem gone]
            exact first
          · exact ih later rest inTail

theorem find?_child {path source name : String} {kind : Option String}
    {children : List (String × TokenNode)} {child : TokenNode}
    (isGroup : registry.find? path = some ⟨source, .group kind children⟩)
    (member : children.lookup name = some child) (undotted : '.' ∉ name.toList) :
    registry.find? (path ++ "." ++ name) = some ⟨source, child⟩ :=
  firstFound?_child isGroup member undotted

/-- The expansion of a group is an object, in which each child has the expansion of the
reference to it. -/
theorem Expands.group_members (wellFormed : registry.WellFormed) {path source : String}
    {kind : Option String} {children : List (String × TokenNode)}
    (isGroup : registry.find? path = some ⟨source, .group kind children⟩)
    {expansion : Option Value}
    (expands : registry.Expands (.string (referenceText path)) expansion) :
    ∃ members, expansion = some (.object members) ∧
      ∀ name child, children.lookup name = some child → '.' ∉ name.toList →
        registry.Expands (.string (referenceText (path ++ "." ++ name)))
          (members.lookup name) := by
  have found : registry.valueAt? path = some (.object (childValues children)) := by
    rw [valueAt?, isGroup, Option.map_some, TokenNode.toValue]
  have whole := expands.of_reference (referencePath?_referenceText path) found rfl
  have distinct : DistinctNames (childValues children) := by
    have group := wellFormed.of_find? isGroup
    rw [TokenNode.WellFormed] at group
    rw [DistinctNames, memberNames_childValues]
    exact group.1
  cases whole with
  | object each =>
      refine ⟨_, rfl, ?_⟩
      intro name child member undotted
      have atChild : registry.valueAt? (path ++ "." ++ name) = some child.toValue := by
        rw [valueAt?, find?_child isGroup member undotted, Option.map_some]
      have present : (childValues children).lookup name = some child.toValue := by
        rw [lookup_childValues, member, Option.map_some]
      exact (each.expands_lookup distinct (mem_of_lookup present)).to_reference
        (referencePath?_referenceText _) atChild

end SourceRegistry

namespace Resolver

variable {registry : SourceRegistry} {resolver other : Resolver registry}

theorem expands_of_silent (reachable : resolver.Reachable) {value : Value}
    (silent : (resolver.normalize value).warnings = []) :
    registry.Expands value (resolver.normalize value).result.1 := by
  rw [normalize, warnings_normalizeIn reachable] at silent
  rw [normalize, result_normalizeIn reachable]
  exact SourceRegistry.expands_of_silent (SourceRegistry.referenceExpands_of_silent []) value silent

/-- A path that leads to a group leads on to each of its children, in the same source. When no
circle is met on the way, the group stands for an object, and the child stands for the member of
its name: undefined exactly when there is no such member. -/
theorem group_coherent (wellFormed : registry.WellFormed) (reachable : resolver.Reachable)
    (otherReachable : other.Reachable) {path source : String} {kind : Option String}
    {children : List (String × TokenNode)}
    (isGroup : registry.find? path = some ⟨source, .group kind children⟩) :
    (∀ name child, children.lookup name = some child → '.' ∉ name.toList →
      registry.find? (path ++ "." ++ name) = some ⟨source, child⟩) ∧
    ((resolver.normalize (.string (referenceText path))).warnings = [] →
      ∃ members, (resolver.normalize (.string (referenceText path))).result.1 =
          some (.object members) ∧
        ∀ name child, children.lookup name = some child → '.' ∉ name.toList →
          members.lookup name =
            (other.normalize (.string (referenceText (path ++ "." ++ name)))).result.1) := by
  constructor
  · intro name child member undotted
    exact SourceRegistry.find?_child isGroup member undotted
  · intro silent
    obtain ⟨members, whole, each⟩ :=
      (expands_of_silent reachable silent).group_members wellFormed isGroup
    refine ⟨members, whole, ?_⟩
    intro name child member undotted
    exact (normalize_of_expands otherReachable (each name child member undotted)).1.symm

def brandColors : List (String × TokenNode) := [
  ("ink", .leaf ⟨.string "{color.black}", some "color", none⟩),
  ("lost", .raw (.string "{color.gone}"))]

/-- A group whose first source refers to what only the second one has in it. -/
def splitGroup : SourceRegistry where
  sources := [
    ⟨"brand", ⟨none, [("color", .group (some "color") brandColors)]⟩⟩,
    ⟨"base", ⟨none, [("color", .group none [
      ("black", .raw (.string "#000000")), ("ink", .raw (.string "#333333"))])]⟩⟩]
  distinct := show ["brand", "base"].Nodup by decide

theorem splitGroup_wellFormed : splitGroup.WellFormed := by decide

theorem splitGroup_expands :
    splitGroup.Expands (.string (referenceText "color"))
      (some (.object [("ink", .string "#000000")])) := by
  have black : splitGroup.Expands (.string "{color.black}") (some (.string "#000000")) :=
    .reference rfl (.literal rfl rfl) (.text rfl)
  have gone : splitGroup.Expands (.string "{color.gone}") none := .dangling rfl (.undefined rfl)
  exact .reference rfl (.literal rfl rfl) (.object (.kept black (.dropped gone .nil)))

theorem group_of_splitGroup :
    let resolver := ((fresh splitGroup).walk [] "color.ink").2
    splitGroup.WellFormed ∧ resolver.Reachable ∧
      (splitGroup.find? "color.ink").map Found.source = some "brand" ∧
      (resolver.normalize (.string (referenceText "color"))).warnings = [] ∧
      ∃ members, (resolver.normalize (.string (referenceText "color"))).result.1 =
          some (.object members) ∧
        members.lookup "ink" = some (.string "#000000") ∧ members.lookup "lost" = none := by
  intro resolver
  have reachable : resolver.Reachable := .walk .fresh [] "color.ink"
  have ink : splitGroup.Expands (.string (referenceText "color.ink")) (some (.string "#000000")) :=
    .reference rfl (.onward rfl rfl (.literal rfl rfl)) (.text rfl)
  have lost : splitGroup.Expands (.string (referenceText "color.lost")) none :=
    .dangling rfl (.onward rfl rfl (.undefined rfl))
  have silent := (normalize_of_expands reachable splitGroup_expands).2
  obtain ⟨below, coherent⟩ := group_coherent splitGroup_wellFormed reachable reachable
    (show splitGroup.find? "color" = some ⟨"brand", .group _ _⟩ from rfl)
  obtain ⟨members, result, each⟩ := coherent silent
  have found := below "ink" _ rfl (by decide)
  have inkMember := (each "ink" _ rfl (by decide)).trans (normalize_of_expands reachable ink).1
  have lostMember := (each "lost" _ rfl (by decide)).trans (normalize_of_expands reachable lost).1
  exact ⟨splitGroup_wellFormed, reachable, congrArg (Option.map Found.source) found, silent,
    members, result, inkMember, lostMember⟩

end Resolver

end DesignTokens
