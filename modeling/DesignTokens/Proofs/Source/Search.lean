/-
What a search comes to.

A search ends in a source that defines the path. The value there is a part of
the whole value of its source, so it refers only to paths that the source
refers to.
-/
import DesignTokens.Proofs.Resolution.Expansion
import DesignTokens.Proofs.Tree.Descent

namespace DesignTokens

/-! ### References in a tree -/

theorem memberReferences_of_lookup {name : String} {node : TokenNode}
    {children : List (String × TokenNode)} (found : children.lookup name = some node) :
    node.toValue.references ⊆ Value.memberReferences (childValues children) := by
  induction children with
  | nil => cases found
  | cons head tail ih =>
      obtain ⟨other, kept⟩ := head
      rw [childValues, Value.memberReferences]
      rw [List.lookup_cons] at found
      split at found
      · cases found
        exact List.subset_append_left _ _
      · exact List.Subset.trans (ih found) (List.subset_append_right _ _)

theorem TokenTree.references_of_lookup {tree : TokenTree} {path : String} {node : TokenNode}
    (found : tree.lookup? path = some node) :
    node.toValue.references ⊆ tree.toValue.references := by
  let Inside (node : TokenNode) : Prop := node.toValue.references ⊆ tree.toValue.references
  have below (kind : Option String) (children : List (String × TokenNode))
      (group : Inside (.group kind children)) (name : String) (child : TokenNode)
      (member : children.lookup name = some child) : Inside child :=
    List.Subset.trans (memberReferences_of_lookup member) group
  have whole : Inside tree.toNode := List.Subset.refl _
  exact tree.holds_of_lookup below whole found

/-! ### Searching sources -/

/-- The node that the first of these sources with a node under a path has there. -/
def firstFound? (sources : List Source) (path : String) : Option Found :=
  sources.findSome? fun source => (source.tree.lookup? path).map (⟨source.name, ·⟩)

theorem firstFound?_of_some {source : Source} {path : String} {node : TokenNode}
    (defined : source.tree.lookup? path = some node) (rest : List Source) :
    firstFound? (source :: rest) path = some ⟨source.name, node⟩ := by
  rw [firstFound?, List.findSome?_cons, defined]
  rfl

theorem firstFound?_of_none {source : Source} {path : String}
    (missing : source.tree.lookup? path = none) (rest : List Source) :
    firstFound? (source :: rest) path = firstFound? rest path := by
  rw [firstFound?, List.findSome?_cons, missing]
  rfl

theorem exists_source_of_firstFound? {sources : List Source} {path : String} {found : Found}
    (isFound : firstFound? sources path = some found) :
    ∃ source ∈ sources, source.name = found.source ∧
      source.tree.lookup? path = some found.node := by
  obtain ⟨source, present, there⟩ := List.exists_of_findSome?_eq_some isFound
  obtain ⟨node, looked, same⟩ := Option.map_eq_some_iff.mp there
  rw [← same]
  exact ⟨source, present, rfl, looked⟩

theorem firstFound?_append_of_mem {sources : List Source} {path : String} {source : Source}
    (present : source ∈ sources) (defined : (source.tree.lookup? path).isSome = true)
    (rest : List Source) :
    ∃ found, firstFound? sources path = some found ∧
      firstFound? (sources ++ rest) path = some found := by
  induction sources with
  | nil => cases present
  | cons head tail ih =>
      cases looked : head.tree.lookup? path with
      | some node =>
          exact ⟨_, firstFound?_of_some looked tail, firstFound?_of_some looked (tail ++ rest)⟩
      | none =>
          have later : source ∈ tail := by
            refine (List.mem_cons.mp present).resolve_left ?_
            rintro rfl
            rw [looked] at defined
            cases defined
          rw [List.cons_append, firstFound?_of_none looked, firstFound?_of_none looked]
          exact ih later

namespace SourceRegistry

variable {registry : SourceRegistry}

theorem find?_eq_firstFound? (registry : SourceRegistry) (path : String) :
    registry.find? path = firstFound? registry.sources path := rfl

theorem exists_source_of_tree? {name : String} {tree : TokenTree}
    (found : registry.tree? name = some tree) :
    ∃ source ∈ registry.sources, source.name = name ∧ source.tree = tree := by
  obtain ⟨source, isFound, same⟩ := Option.map_eq_some_iff.mp found
  have named := List.find?_some isFound
  exact ⟨source, List.mem_of_find?_eq_some isFound, eq_of_beq named, same⟩

theorem find?_name_of_mem {sources : List Source} (distinct : (sources.map Source.name).Nodup)
    {source : Source} (present : source ∈ sources) :
    sources.find? (fun other => other.name == source.name) = some source := by
  induction sources with
  | nil => cases present
  | cons head tail ih =>
      obtain ⟨absent, rest⟩ := List.nodup_cons.mp distinct
      rcases List.mem_cons.mp present with first | later
      · rw [first]
        exact List.find?_cons_of_pos (beq_self_eq_true _)
      · have differs : (head.name == source.name) = false := by
          rw [beq_eq_false_iff_ne]
          intro same
          rw [same] at absent
          exact absent (List.mem_map_of_mem later)
        rw [List.find?_cons, differs]
        exact ih rest later

theorem tree?_of_mem {source : Source} (present : source ∈ registry.sources) :
    registry.tree? source.name = some source.tree := by
  rw [tree?, find?_name_of_mem registry.distinct present, Option.map_some]

/-! ### One source more -/

section Push

variable {larger : SourceRegistry} {name : String} {tree : TokenTree}

theorem sources_push (pushed : registry.push name tree = .ok larger) :
    larger.sources = registry.sources ++ [⟨name, tree⟩] := by
  unfold push at pushed
  split at pushed
  · cases pushed
  · cases pushed
    rfl

theorem push_eq_error_iff {error : LoadError} :
    registry.push name tree = .error error ↔
      name ∈ registry.names ∧ error = .duplicateSource name := by
  unfold push
  by_cases taken : name ∈ registry.names
  · rw [dif_pos taken]
    simp [taken, eq_comm]
  · rw [dif_neg taken]
    simp [taken]

theorem exists_push (fresh : name ∉ registry.names) (tree : TokenTree) :
    ∃ larger, registry.push name tree = .ok larger := by
  rw [push, dif_neg fresh]
  exact ⟨_, rfl⟩

theorem find?_push (pushed : registry.push name tree = .ok larger) (path : String) :
    larger.find? path =
      (registry.find? path).or ((tree.lookup? path).map (⟨name, ·⟩)) := by
  rw [find?, sources_push pushed, List.findSome?_append, List.findSome?_singleton, find?]

end Push

/-! ### Where a search ends -/

/-- The search for a path ends in the source of this name. -/
def LandsIn (registry : SourceRegistry) (name path : String) : Prop :=
  (registry.find? path).map Found.source = some name

instance (registry : SourceRegistry) (name path : String) :
    Decidable (registry.LandsIn name path) :=
  inferInstanceAs (Decidable (_ = _))

theorem landsIn_of_find? {path : String} {found : Found}
    (isFound : registry.find? path = some found) : registry.LandsIn found.source path :=
  congrArg (Option.map Found.source) isFound

/-- What the source has under the path is what the search for it finds. -/
theorem LandsIn.exists_node {name path : String} (lands : registry.LandsIn name path) :
    ∃ node, (registry.tree? name).bind (·.lookup? path) = some node ∧
      registry.valueAt? path = some node.toValue := by
  obtain ⟨found, isFound, named⟩ := Option.map_eq_some_iff.mp lands
  obtain ⟨source, present, same, looked⟩ := exists_source_of_firstFound? isFound
  refine ⟨found.node, ?_, ?_⟩
  · rw [← named, ← same, tree?_of_mem present, Option.bind_some, looked]
  · rw [valueAt?, isFound, Option.map_some]

end SourceRegistry

end DesignTokens
